import SkynetAoi.Skynet.Slots

/-!
This module contains what the registry is for: a map of the handles to the contexts and one of the names
to the handles. Any calls in any order are answered from these maps, as long as the table does not grow
while a context waits for its handle.
-/

namespace SkynetHandle

/--
`reserved` is the handle that a context has been given and does not have yet.
-/
structure Registry where
  contexts : UInt32 → Option Nat
  reserved : Nat → Option UInt32
  names : Bytes → Option UInt32

namespace Registry

def empty : Registry where
  contexts := fun _ => none
  reserved := fun _ => none
  names := fun _ => none

def Fresh (harbor : UInt32) (r : Registry) (h : UInt32) : Prop :=
  r.contexts h = none ∧ (∀ c, r.reserved c ≠ some h) ∧ 0 < h.toNat % 2 ^ 24
    ∧ h.toNat / 2 ^ 24 = harbor.toNat % 256

def Allows (harbor : UInt32) (r : Registry) (c : Call) (reply : Reply) : Prop :=
  match c with
  | .launch ctx =>
    match reply with
    | .handle h => r.Fresh harbor h
    | .nothing => (∃ h, r.contexts h = some ctx) ∨ r.reserved ctx ≠ none
    | _ => False
  | .assign _ => reply = .nothing
  | .retire h => reply = .context (r.contexts h)
  | .grab h => reply = .context (r.contexts h)
  | .findname name => reply = .handle ((r.names name).getD 0)
  | .namehandle _ name => reply = .named (r.names name).isNone

theorem allows_retire (harbor : UInt32) (r : Registry) (h : UInt32) (reply : Reply)
    : r.Allows harbor (.retire h) reply = (reply = .context (r.contexts h)) := rfl

theorem allows_grab (harbor : UInt32) (r : Registry) (h : UInt32) (reply : Reply)
    : r.Allows harbor (.grab h) reply = (reply = .context (r.contexts h)) := rfl

theorem allows_findname (harbor : UInt32) (r : Registry) (name : Bytes) (reply : Reply)
    : r.Allows harbor (.findname name) reply = (reply = .handle ((r.names name).getD 0)) := rfl

theorem allows_namehandle (harbor : UInt32) (r : Registry) (h : UInt32) (name : Bytes) (reply : Reply)
    : r.Allows harbor (.namehandle h name) reply = (reply = .named (r.names name).isNone) := rfl

def next (r : Registry) (c : Call) (reply : Reply) : Registry :=
  match c, reply with
  | .launch ctx, .handle h => { r with reserved := Function.update r.reserved ctx (some h) }
  | .assign ctx, _ =>
    match r.reserved ctx with
    | none => r
    | some h =>
      { r with
        contexts := Function.update r.contexts h (some ctx)
        reserved := Function.update r.reserved ctx none
      }
  | .retire h, .context (some _) =>
    { r with
      contexts := Function.update r.contexts h none
      names := fun name => if r.names name = some h then none else r.names name
    }
  | .namehandle h name, .named true => { r with names := Function.update r.names name (some h) }
  | _, _ => r

def Explains (harbor : UInt32) (r : Registry) (calls : List Call) (replies : List Reply) : Prop :=
  match calls, replies with
  | [], [] => True
  | c :: calls, reply :: replies =>
    r.Allows harbor c reply ∧ (r.next c reply).Explains harbor calls replies
  | _, _ => False

end Registry

/--
The table does not grow while a context waits for its handle, which is read to find its new place. Nobody
asks for the handle 0.
-/
def Call.Quiet (w : World) (c : Call) : Prop :=
  match c with
  | .launch _ =>
    findFree w.storage.slot w.storage.slot.length w.storage.handleIndex = none
      → ∀ ctx, w.pending ctx = none
  | .retire h => h ≠ 0
  | .grab h => h ≠ 0
  | _ => True

def Quiet (w : World) (calls : List Call) : Prop :=
  match calls with
  | [] => True
  | c :: calls =>
    c.Quiet w
      ∧ match step w c with
        | none => True
        | some (_, w) => Quiet w calls

def World.given (w : World) (ctx : Nat) : UInt32 := (w.pending ctx).getD (w.handle ctx)

structure Inv (harbor : UInt32) (w : World) : Prop where
  size : ∃ k, 2 ≤ k ∧ k ≤ 24 ∧ w.storage.slot.length = 2 ^ k
  index : 0 < w.storage.handleIndex.toNat ∧ w.storage.handleIndex.toNat ≤ 2 ^ 24
  harbor : w.storage.harbor = (harbor &&& 0xff) <<< handleRemoteShift
  placed : Placed w.given w.storage.slot
  nonzero : ∀ ctx, some ctx ∈ w.storage.slot → 0 < (w.given ctx).toNat % 2 ^ 24
  pending : ∀ ctx h, w.pending ctx = some h → some ctx ∈ w.storage.slot ∧ w.handle ctx = 0
  names : BinarySearch.Increasing strcmp HandleName.name w.storage.name

structure Represents (w : World) (r : Registry) : Prop where
  contexts : ∀ h ctx, r.contexts h = some ctx
    ↔ some ctx ∈ w.storage.slot ∧ w.pending ctx = none ∧ w.handle ctx = h
  reserved : r.reserved = w.pending
  names : ∀ name h, r.names name = some h ↔ { name := name, handle := h } ∈ w.storage.name

theorem inv_init (harbor : UInt32) : Inv harbor (World.init harbor) where
  size := ⟨2, by decide, by decide, rfl⟩
  index := ⟨by simp [World.init, handleInit], by simp [World.init, handleInit]⟩
  harbor := rfl
  placed := by
    intro i ctx hi
    have := mem_iff_slotAt.mpr ⟨i, hi⟩
    simp [World.init, handleInit] at this
  nonzero := by
    intro ctx h
    simp [World.init, handleInit] at h
  pending := by
    intro ctx h hpending
    cases hpending
  names := .nil

theorem represents_init (harbor : UInt32) : Represents (World.init harbor) .empty where
  contexts := by simp [World.init, handleInit, Registry.empty]
  reserved := rfl
  names := by simp [World.init, handleInit, Registry.empty]

section

variable {harbor : UInt32} {w : World} {r : Registry}

theorem toNat_harbor (harbor : UInt32)
    : ((harbor &&& 0xff) <<< handleRemoteShift).toNat = harbor.toNat % 256 * 2 ^ 24 := by
  rw [UInt32.toNat_shiftLeft, UInt32.toNat_and]
  change (harbor.toNat &&& (2 ^ 8 - 1)) <<< 24 % 2 ^ 32 = _
  rw [Nat.and_two_pow_sub_one_eq_mod, Nat.shiftLeft_eq]
  omega

theorem World.given_of_pending {ctx : Nat} (hctx : w.pending ctx = none)
    : w.given ctx = w.handle ctx := by
  rw [World.given, hctx]
  rfl

theorem Inv.slotAt_given (h : Inv harbor w) {ctx : Nat} (hctx : some ctx ∈ w.storage.slot)
    : slotAt w.storage.slot (hash w.storage.slot (w.given ctx)) = some ctx := by
  obtain ⟨i, hi⟩ := mem_iff_slotAt.mp hctx
  rw [h.placed i ctx hi, hi]

theorem Inv.given_inj (h : Inv harbor w) {c d : Nat} (hc : some c ∈ w.storage.slot)
    (hd : some d ∈ w.storage.slot) (heq : w.given c = w.given d) : c = d :=
  h.placed.inj hc hd (by rw [heq])

theorem Inv.handleGrab (hw : Inv harbor w) (hr : Represents w r) {h : UInt32} (hne : h ≠ 0)
    : handleGrab w.handle w.storage h = r.contexts h := by
  unfold SkynetHandle.handleGrab
  cases hcontext : r.contexts h with
  | some c =>
    obtain ⟨hc, hpending, hhandle⟩ := (hr.contexts h c).mp hcontext
    have hat := hw.slotAt_given hc
    rw [World.given_of_pending hpending, hhandle] at hat
    rw [hat]
    simp [hhandle]
  | none =>
    split
    . next c hat =>
      split
      . next hhandle =>
        have hc := mem_iff_slotAt.mpr ⟨_, hat⟩
        cases hpending : w.pending c with
        | none =>
          have := (hr.contexts h c).mpr ⟨hc, hpending, hhandle⟩
          rw [hcontext] at this
          cases this
        | some h' =>
          rw [(hw.pending c h' hpending).2] at hhandle
          exact absurd hhandle.symm hne
      . rfl
    . rfl

structure Good (harbor : UInt32) (r : Registry) (c : Call) (reply : Reply) (w' : World) : Prop where
  allows : r.Allows harbor c reply
  inv : Inv harbor w'
  represents : Represents w' (r.next c reply)

theorem good_of_inUse (hw : Inv harbor w) (hr : Represents w r) {ctx : Nat}
    (hctx : some ctx ∈ w.storage.slot) : Good harbor r (.launch ctx) .nothing w where
  allows := by
    cases hpending : w.pending ctx with
    | none => exact .inl ⟨_, (hr.contexts _ ctx).mpr ⟨hctx, hpending, rfl⟩⟩
    | some h =>
      right
      rw [hr.reserved, hpending]
      simp
  inv := hw
  represents := hr

def World.launched (w : World) (ctx : Nat) (x : UInt32) (storage : HandleStorage) : World where
  storage := storage
  handle := Function.update w.handle ctx 0
  pending := Function.update w.pending ctx (some x)

theorem given_launched (w : World) (ctx : Nat) (x : UInt32) (storage : HandleStorage)
    : (w.launched ctx x storage).given = Function.update w.given ctx x := by
  funext c
  by_cases hc : c = ctx
  . simp [World.given, World.launched, hc]
  . simp [World.given, World.launched, hc]

theorem toNat_or_harbor (hw : Inv harbor w) {h : UInt32} (hlt : h.toNat < 2 ^ 24)
    : (h ||| w.storage.harbor).toNat = h.toNat + harbor.toNat % 256 * 2 ^ 24 := by
  rw [UInt32.toNat_or, hw.harbor, toNat_harbor, Nat.or_comm, Nat.mul_comm,
    ← Nat.two_pow_add_eq_or_of_lt hlt]
  omega

section

variable {ctx : Nat} {h : UInt32} {storage : HandleStorage}
  (hnew : Registered w.given w.storage ctx h storage)

include hnew

theorem Inv.launched (hw : Inv harbor w)
    : Inv harbor (w.launched ctx (h ||| w.storage.harbor) storage) where
  size := hnew.size
  index := by
    have hlt := hnew.lt
    have hindex : (h + 1).toNat = h.toNat + 1 := by
      rw [UInt32.toNat_add]
      change (h.toNat + 1) % 2 ^ 32 = _
      omega
    change 0 < storage.handleIndex.toNat ∧ storage.handleIndex.toNat ≤ 2 ^ 24
    rw [hnew.index, hindex]
    omega
  harbor := hnew.harbor.trans hw.harbor
  placed := by
    rw [given_launched]
    exact hnew.placed
  nonzero := by
    intro c hc
    rw [given_launched]
    by_cases hsame : c = ctx
    . rw [hsame, Function.update_self, toNat_or_harbor hw hnew.lt, Nat.add_mul_mod_self_right,
        Nat.mod_eq_of_lt hnew.lt]
      exact hnew.pos
    . rw [Function.update_of_ne hsame]
      exact hw.nonzero c (((hnew.mem c).mp hc).resolve_left hsame)
  pending := by
    intro c x hpending
    change Function.update w.pending ctx _ c = some x at hpending
    by_cases hsame : c = ctx
    . rw [hsame]
      exact ⟨(hnew.mem ctx).mpr (.inl rfl), Function.update_self ..⟩
    . rw [Function.update_of_ne hsame] at hpending
      obtain ⟨hc, hzero⟩ := hw.pending c x hpending
      exact ⟨(hnew.mem c).mpr (.inr hc), (Function.update_of_ne hsame ..).trans hzero⟩
  names := by
    change BinarySearch.Increasing strcmp HandleName.name storage.name
    rw [hnew.name]
    exact hw.names

variable (hctx : some ctx ∉ w.storage.slot)

include hctx

theorem Registered.ne_given (hw : Inv harbor w) {c : Nat} (hc : some c ∈ w.storage.slot)
    : w.given c ≠ h ||| w.storage.harbor := by
  intro heq
  have hne : c ≠ ctx := by
    rintro rfl
    exact hctx hc
  have hlaunched := hw.launched hnew
  apply hne
  apply hlaunched.given_inj ((hnew.mem c).mpr (.inr hc)) ((hnew.mem ctx).mpr (.inl rfl))
  rw [given_launched, Function.update_of_ne hne, Function.update_self, heq]

theorem good_of_registered (hw : Inv harbor w) (hr : Represents w r)
    : Good harbor r (.launch ctx) (.handle (h ||| w.storage.harbor))
        (w.launched ctx (h ||| w.storage.harbor) storage) where
  allows := by
    have hlt := hnew.lt
    have hpos := hnew.pos
    have hx := toNat_or_harbor hw hlt
    refine ⟨?_, ?_, by omega, by omega⟩
    . cases hcontext : r.contexts (h ||| w.storage.harbor) with
      | none => rfl
      | some c =>
        obtain ⟨hc, hpending, hhandle⟩ := (hr.contexts _ c).mp hcontext
        exact absurd ((World.given_of_pending hpending).trans hhandle)
          (hnew.ne_given hctx hw hc)
    . intro c hpending
      rw [hr.reserved] at hpending
      apply hnew.ne_given hctx hw (hw.pending c _ hpending).1
      rw [World.given, hpending]
      rfl
  inv := hw.launched hnew
  represents := by
    refine ⟨?_, ?_, ?_⟩
    . intro x c
      change r.contexts x = some c ↔ some c ∈ storage.slot ∧ Function.update w.pending ctx _ c = none
        ∧ Function.update w.handle ctx 0 c = x
      rw [hr.contexts, hnew.mem]
      by_cases hsame : c = ctx
      . simp [hsame, hctx]
      . simp [hsame]
    . change Function.update r.reserved ctx _ = Function.update w.pending ctx _
      rw [hr.reserved]
    . change ∀ name x, r.names name = some x ↔ _ ∈ storage.name
      rw [hnew.name]
      exact hr.names

end

theorem good_assign (hw : Inv harbor w) (hr : Represents w r) (ctx : Nat)
    : Good harbor r (.assign ctx) (assign w ctx).1 (assign w ctx).2 := by
  unfold assign
  cases hpending : w.pending ctx with
  | none =>
    refine ⟨rfl, hw, ?_⟩
    rw [Registry.next, hr.reserved, hpending]
    exact hr
  | some h =>
    obtain ⟨hctx, -⟩ := hw.pending ctx h hpending
    have hgivenctx : w.given ctx = h := by rw [World.given, hpending]; rfl
    have hgiven : World.given { w with
        handle := Function.update w.handle ctx h
        pending := Function.update w.pending ctx none } = w.given := by
      funext c
      by_cases hc : c = ctx
      . simp [World.given, hc, hpending]
      . simp [World.given, hc]
    refine ⟨rfl, ⟨hw.size, hw.index, hw.harbor, ?_, ?_, ?_, hw.names⟩, ⟨?_, ?_, ?_⟩⟩
    . rw [hgiven]
      exact hw.placed
    . rw [hgiven]
      exact hw.nonzero
    . intro c x hpending'
      by_cases hc : c = ctx
      . simp [hc] at hpending'
      . simp only [Function.update_of_ne hc] at hpending' ⊢
        exact hw.pending c x hpending'
    . intro x c
      rw [Registry.next, hr.reserved, hpending]
      dsimp only
      by_cases hx : x = h
      . -- The handle is the one of `ctx` and of no other context.
        rw [hx, Function.update_self, Option.some.injEq]
        constructor
        . rintro rfl
          simp [hctx]
        . rintro ⟨hc, hnone, hhandle⟩
          by_contra hne
          rw [Function.update_of_ne (Ne.symm hne)] at hnone hhandle
          apply hne
          apply hw.given_inj hctx hc
          rw [World.given_of_pending hnone, hhandle, hgivenctx]
      . rw [Function.update_of_ne hx, hr.contexts]
        by_cases hc : c = ctx
        . simp [hc, hpending, Ne.symm hx]
        . simp [hc]
    . rw [Registry.next, hr.reserved, hpending]
    . rw [Registry.next, hr.reserved, hpending]
      exact hr.names

theorem handleRetire_eq (handle : Nat → UInt32) (s : HandleStorage) (h : UInt32)
    : handleRetire handle s h = (handleGrab handle s h,
        if (handleGrab handle s h).isSome then
          { s with slot := s.slot.set (hash s.slot h) none, name := s.name.filter (·.handle ≠ h) }
        else s) := by
  unfold handleRetire handleGrab
  split
  . split
    . rfl
    . rfl
  . rfl

theorem good_retire (hw : Inv harbor w) (hr : Represents w r) {h : UInt32} (hne : h ≠ 0)
    : Good harbor r (.retire h) (.context (handleRetire w.handle w.storage h).1)
        { w with storage := (handleRetire w.handle w.storage h).2 } := by
  rw [handleRetire_eq, hw.handleGrab hr hne]
  cases hcontext : r.contexts h with
  | none => exact ⟨by rw [Registry.allows_retire, hcontext], hw, hr⟩
  | some ctx =>
    obtain ⟨hctx, hpending, hhandle⟩ := (hr.contexts h ctx).mp hcontext
    have hgiven : w.given ctx = h := by rw [World.given_of_pending hpending, hhandle]
    have hat := hw.slotAt_given hctx
    rw [hgiven] at hat
    obtain ⟨k, hlow, hhigh, hk⟩ := hw.size
    have hlt := hash_lt hk h
    have hmem : ∀ c, some c ∈ w.storage.slot.set (hash w.storage.slot h) none
        ↔ some c ∈ w.storage.slot ∧ c ≠ ctx := by
      intro c
      simp only [mem_iff_slotAt, slotAt_set hlt]
      constructor
      . rintro ⟨i, hi⟩
        split at hi
        . cases hi
        . next hplace =>
          refine ⟨⟨i, hi⟩, ?_⟩
          rintro rfl
          apply hplace
          rw [← hgiven]
          exact hw.placed i c hi
      . rintro ⟨⟨i, hi⟩, hc⟩
        refine ⟨i, ?_⟩
        rw [if_neg]
        . exact hi
        . rintro rfl
          rw [hat] at hi
          exact hc (Option.some.inj hi).symm
    refine ⟨by rw [Registry.allows_retire, hcontext],
      ⟨⟨k, hlow, hhigh, ?_⟩, hw.index, hw.harbor, ?_, ?_, ?_, ?_⟩, ⟨?_, hr.reserved, ?_⟩⟩
    . simp [hk]
    . intro i c hi
      simp only [Option.isSome_some, ↓reduceIte] at hi ⊢
      rw [slotAt_set hlt] at hi
      rw [hash_set]
      split at hi
      . cases hi
      . exact hw.placed i c hi
    . intro c hc
      simp only [Option.isSome_some, ↓reduceIte, hmem] at hc
      exact hw.nonzero c hc.1
    . intro c x hpending'
      obtain ⟨hc, hzero⟩ := hw.pending c x hpending'
      simp only [Option.isSome_some, ↓reduceIte, hmem]
      refine ⟨⟨hc, ?_⟩, hzero⟩
      rintro rfl
      change w.pending c = some x at hpending'
      rw [hpending] at hpending'
      cases hpending'
    . exact List.Pairwise.filter _ hw.names
    . intro x c
      change Function.update r.contexts h none x = some c ↔ _
      simp only [Option.isSome_some, ↓reduceIte, hmem]
      by_cases hx : x = h
      . rw [hx, Function.update_self]
        simp only [reduceCtorEq, false_iff]
        rintro ⟨⟨hc, hsame⟩, hnone, hh⟩
        apply hsame
        apply hw.given_inj hc hctx
        rw [World.given_of_pending hnone, hh, hgiven]
      . rw [Function.update_of_ne hx, hr.contexts]
        constructor
        . rintro ⟨hc, hnone, hh⟩
          refine ⟨⟨hc, ?_⟩, hnone, hh⟩
          rintro rfl
          exact hx (hh.symm.trans hhandle)
        . rintro ⟨⟨hc, -⟩, hnone, hh⟩
          exact ⟨hc, hnone, hh⟩
    . intro name x
      change (if r.names name = some h then none else r.names name) = some x ↔ _
      simp only [Option.isSome_some, ↓reduceIte, List.mem_filter, ← hr.names]
      split
      . next hname =>
        simp only [reduceCtorEq, hname, Option.some.injEq, decide_eq_true_eq, false_iff, not_and,
          not_not]
        exact fun h => h.symm
      . next hname =>
        constructor
        . intro hx
          refine ⟨hx, ?_⟩
          rw [decide_eq_true_eq]
          rintro rfl
          exact hname hx
        . exact fun hx => hx.1

theorem searchName_cases (hw : Inv harbor w) (hr : Represents w r) (name : Bytes)
    : (∃ n, searchName w.storage name = some (.ok n) ∧ r.names name = some n.handle)
        ∨ ∃ before, searchName w.storage name = some (.error before) ∧ r.names name = none
          ∧ (∀ n ∈ w.storage.name.take before, strcmp n.name name = .lt)
          ∧ ∀ n ∈ w.storage.name.drop before, strcmp n.name name = .gt := by
  obtain ⟨found, hsearch, hfinds⟩ := (hw.names.sorted name).search
  cases found with
  | ok n =>
    obtain ⟨hn, heq⟩ := hfinds
    have hname : n.name = name := Std.LawfulEqCmp.eq_of_compare heq
    refine .inl ⟨n, hsearch, ?_⟩
    rw [hr.names, ← hname]
    exact hn
  | error before =>
    obtain ⟨-, hsmall, hbig⟩ := hfinds
    refine .inr ⟨before, hsearch, ?_, hsmall, hbig⟩
    cases hname : r.names name with
    | none => rfl
    | some h =>
      have hmem := (hr.names name h).mp hname
      rw [← List.take_append_drop before w.storage.name, List.mem_append] at hmem
      have hrefl : strcmp name name = .eq := Std.ReflCmp.compare_self
      rcases hmem with hmem | hmem
      . exact absurd (hrefl.symm.trans (hsmall _ hmem)) (by decide)
      . exact absurd (hrefl.symm.trans (hbig _ hmem)) (by decide)

theorem good_namehandle (hw : Inv harbor w) (hr : Represents w r) {h : UInt32} {name : Bytes}
    {ok : Bool} {storage : HandleStorage}
    (hstep : handleNamehandle w.storage h name = some (ok, storage))
    : Good harbor r (.namehandle h name) (.named ok) { w with storage := storage } := by
  unfold handleNamehandle at hstep
  rcases searchName_cases hw hr name with
    ⟨n, hsearch, hname⟩ | ⟨before, hsearch, hname, hsmall, hbig⟩
  . simp only [hsearch, Option.some.injEq, Prod.mk.injEq] at hstep
    obtain ⟨rfl, rfl⟩ := hstep
    exact ⟨by rw [Registry.allows_namehandle, hname]; rfl, hw, hr⟩
  . have hinsert : ∃ cap, storage = { w.storage with
        nameCap := cap
        name := w.storage.name.take before ++ { name := name, handle := h }
          :: w.storage.name.drop before } ∧ ok = true := by
      simp only [hsearch, Option.map_eq_some_iff, Prod.mk.injEq] at hstep
      obtain ⟨s, hs, rfl, rfl⟩ := hstep
      unfold insertNameBefore at hs
      split at hs
      . split at hs
        . exact ⟨_, (Option.some.inj hs).symm, rfl⟩
        . cases hs
      . exact ⟨w.storage.nameCap, (Option.some.inj hs).symm, rfl⟩
    obtain ⟨cap, rfl, rfl⟩ := hinsert
    refine ⟨by rw [Registry.allows_namehandle, hname]; rfl, ⟨hw.size, hw.index, hw.harbor, hw.placed,
      hw.nonzero, hw.pending, hw.names.insert hsmall hbig⟩, ⟨hr.contexts, hr.reserved, ?_⟩⟩
    intro name' x
    change Function.update r.names name (some h) name' = some x
      ↔ _ ∈ w.storage.name.take before ++ _ :: w.storage.name.drop before
    have hold := hr.names name' x
    rw [← List.take_append_drop before w.storage.name, List.mem_append] at hold
    rw [List.mem_append, List.mem_cons, HandleName.mk.injEq]
    by_cases hsame : name' = name
    . rw [hsame, hname] at hold
      rw [hsame, Function.update_self, Option.some.injEq]
      simp only [reduceCtorEq, false_iff, not_or] at hold
      simp [hold, eq_comm]
    . rw [Function.update_of_ne hsame, hold]
      simp [hsame]

theorem launch_cases (hw : Inv harbor w) (hr : Represents w r) (ctx : Nat)
    (hquiet : (Call.launch ctx).Quiet w)
    : (launch w ctx = none ∧ some ctx ∉ w.storage.slot ∧ Stuck w.storage.slot w.storage.handleIndex)
        ∨ ((some ctx ∈ w.storage.slot ∨ ¬ Stuck w.storage.slot w.storage.handleIndex)
          ∧ ∃ reply w', launch w ctx = some (reply, w') ∧ Good harbor r (.launch ctx) reply w') := by
  unfold launch
  by_cases hctx : some ctx ∈ w.storage.slot
  . rw [if_pos (by simpa using hctx)]
    exact .inr ⟨.inl hctx, _, _, rfl, good_of_inUse hw hr hctx⟩
  . rw [if_neg (by simpa using hctx)]
    dsimp only
    obtain ⟨k, hlow, hhigh, hk⟩ := hw.size
    by_cases hstuck : Stuck w.storage.slot w.storage.handleIndex
    . left
      rw [handleRegister, registerLoop_of_stuck _ hk hhigh hw.index.1 hw.index.2 hstuck]
      exact ⟨rfl, hctx, hstuck⟩
    . right
      have hlow24 : w.storage.harbor.toNat % 2 ^ 24 = 0 := by
        rw [hw.harbor, toNat_harbor, Nat.mul_mod_left]
      have hgiven : findFree w.storage.slot w.storage.slot.length w.storage.handleIndex = none
          → ∀ c, some c ∈ w.storage.slot → Function.update w.handle ctx 0 c = w.given c := by
        intro hgrow c hc
        rw [World.given_of_pending (hquiet hgrow c), Function.update_of_ne]
        rintro rfl
        exact hctx hc
      obtain ⟨h, storage, hregister, hnew⟩ := handleRegister_of_not_stuck hk hlow hhigh hw.placed hctx
        hlow24 hw.index.1 hw.index.2 hstuck hgiven
      rw [hregister]
      exact ⟨.inr hstuck, _, _, rfl, good_of_registered hnew hctx hw hr⟩

theorem good_step (hw : Inv harbor w) (hr : Represents w r) {c : Call} (hquiet : c.Quiet w)
    {reply : Reply} {w' : World} (hstep : step w c = some (reply, w')) : Good harbor r c reply w' := by
  cases c with
  | launch ctx =>
    rcases launch_cases hw hr ctx hquiet with ⟨hnone, -⟩ | ⟨-, reply', w₁, hsome, hgood⟩
    . rw [step, hnone] at hstep
      cases hstep
    . rw [step, hsome, Option.some.injEq, Prod.mk.injEq] at hstep
      obtain ⟨rfl, rfl⟩ := hstep
      exact hgood
  | assign ctx =>
    rw [step, Option.some.injEq] at hstep
    have := good_assign hw hr ctx
    rwa [hstep] at this
  | retire h =>
    simp only [step, Option.some.injEq, Prod.mk.injEq] at hstep
    obtain ⟨rfl, rfl⟩ := hstep
    exact good_retire hw hr hquiet
  | grab h =>
    simp only [step, Option.some.injEq, Prod.mk.injEq] at hstep
    obtain ⟨rfl, rfl⟩ := hstep
    exact ⟨by rw [Registry.allows_grab, hw.handleGrab hr hquiet], hw, hr⟩
  | findname name =>
    simp only [step, handleFindname, Option.map_eq_some_iff, Prod.mk.injEq] at hstep
    obtain ⟨h, hfind, rfl, rfl⟩ := hstep
    refine ⟨?_, hw, hr⟩
    rcases searchName_cases hw hr name with ⟨n, hsearch, hname⟩ | ⟨before, hsearch, hname, -⟩
    . rw [hsearch, Option.some.injEq] at hfind
      rw [Registry.allows_findname, hname, ← hfind]
      rfl
    . rw [hsearch, Option.some.injEq] at hfind
      rw [Registry.allows_findname, hname, ← hfind]
      rfl
  | namehandle h name =>
    simp only [step, Option.map_eq_some_iff, Prod.mk.injEq, Prod.exists] at hstep
    obtain ⟨ok, storage, hname, rfl, rfl⟩ := hstep
    exact good_namehandle hw hr hname

theorem explains_replies (hw : Inv harbor w) (hr : Represents w r) {calls : List Call}
    (hquiet : Quiet w calls) {rs : List Reply} {w' : World} (h : replies w calls = some (rs, w'))
    : r.Explains harbor calls rs ∧ Inv harbor w' ∧ ∃ r', Represents w' r' := by
  induction calls generalizing w r rs with
  | nil =>
    simp only [replies, Option.some.injEq, Prod.mk.injEq] at h
    obtain ⟨rfl, rfl⟩ := h
    exact ⟨trivial, hw, r, hr⟩
  | cons c calls ih =>
    obtain ⟨hnow, hlater⟩ := hquiet
    rw [replies] at h
    split at h
    . cases h
    . next reply w₁ hstep =>
      rw [hstep] at hlater
      have hgood := good_step hw hr hnow hstep
      split at h
      . cases h
      . next rs₁ w₂ hrest =>
        simp only [Option.some.injEq, Prod.mk.injEq] at h
        obtain ⟨rfl, rfl⟩ := h
        obtain ⟨hexplains, hinv, hrepresents⟩ :=
          ih hgood.inv hgood.represents hlater hrest
        exact ⟨⟨hgood.allows, hexplains⟩, hinv, hrepresents⟩

end

theorem replies_explained (harbor : UInt32) (calls : List Call) (hquiet : Quiet (.init harbor) calls)
    (rs : List Reply) (w : World) (h : replies (.init harbor) calls = some (rs, w))
    : Registry.empty.Explains harbor calls rs :=
  (explains_replies (inv_init harbor) (represents_init harbor) hquiet h).1

def someCalls : List Call :=
  [.launch 7, .assign 7, .namehandle 1 [97], .launch 8, .grab 1, .findname [97], .retire 1,
    .findname [97]]

theorem quiet_someCalls : Quiet (.init 0) someCalls := by
  refine ⟨?_, trivial, trivial, ?_, ?_, trivial, ?_, trivial, trivial⟩
  . intro h
    exact absurd h (by decide)
  . intro h
    exact absurd h (by decide)
  . exact (by decide : (1 : UInt32) ≠ 0)
  . exact (by decide : (1 : UInt32) ≠ 0)

theorem replies_explained_someCalls
    : Registry.empty.Explains 0 someCalls
        [.handle 1, .nothing, .named true, .handle 2, .context (some 7), .handle 1,
          .context (some 7), .handle 0] :=
  replies_explained 0 someCalls quiet_someCalls _ _ rfl

example
    : (replies (.init 0) [.launch 1, .assign 1, .launch 2, .assign 2, .launch 3, .assign 3,
        .launch 4, .launch 5, .assign 4, .grab 4]).map (·.1.getLast?)
          = some (some (.context none)) := by
  decide

/--
A new context stops the process exactly if all places but the first one are taken and either the table
cannot grow any more, which is an assertion, or the handles that are tried leave the first one out: a
table with a free place is not supposed to grow, and the code follows the null pointer in it.
-/
theorem launch_crashes_iff (harbor : UInt32) (calls : List Call) (hquiet : Quiet (.init harbor) calls)
    (rs : List Reply) (w : World) (h : replies (.init harbor) calls = some (rs, w)) (ctx : Nat)
    (hlast : (Call.launch ctx).Quiet w)
    : step w (.launch ctx) = none
        ↔
      some ctx ∉ w.storage.slot ∧ Stuck w.storage.slot w.storage.handleIndex := by
  obtain ⟨-, hw, r, hr⟩ := explains_replies (inv_init harbor) (represents_init harbor) hquiet h
  rcases launch_cases hw hr ctx hlast with ⟨hnone, hctx, hstuck⟩ | ⟨hok, reply, w', hsome, -⟩
  . exact ⟨fun _ => ⟨hctx, hstuck⟩, fun _ => hnone⟩
  . rw [step, hsome]
    simp only [reduceCtorEq, false_iff, not_and]
    exact fun hctx => hok.resolve_left hctx

theorem launch_crashes_iff_someCalls
    : ∃ w, replies (.init 0) someCalls = some ([.handle 1, .nothing, .named true, .handle 2,
          .context (some 7), .handle 1, .context (some 7), .handle 0], w)
        ∧ (step w (.launch 9) = none
            ↔
          some 9 ∉ w.storage.slot ∧ Stuck w.storage.slot w.storage.handleIndex) :=
  ⟨_, rfl, launch_crashes_iff 0 someCalls quiet_someCalls _ _ rfl 9
    fun h => absurd h (by decide)⟩

example : findFree [none, some 1, some 2, some 3] 4 0xfffffe = none := by decide

end SkynetHandle
