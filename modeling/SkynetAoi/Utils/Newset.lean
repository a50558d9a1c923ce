import Mathlib.Order.BooleanAlgebra.Set
import SkynetAoi.Lib.History
import SkynetAoi.Lib.Inverse

/-!
This module contains the set of `utils.newset` with the position of each of its values. A value is what
a table has as a key; `==` may call the metamethod `__eq` of the values, so that two of them can be
equal.
-/

namespace Newset

/--
What Lua makes of a comparison with `==`, which may raise, and of the length of a table. Only the length
of a table without holes is determined.
-/
structure Lua (α : Type) where
  eq : α → α → Option Bool
  length : (Nat → Option α) → Nat
  eq_self : ∀ v, eq v v = some true
  length_eq : ∀ t n, (∀ i, t i ≠ none ↔ 1 ≤ i ∧ i ≤ n) → length t = n

structure IndexedSet (α : Type) where
  set : Nat → Option α
  reverse : α → Option Nat

def newset {α : Type} : IndexedSet α where
  set := fun _ => none
  reverse := fun _ => none

inductive Op (α : Type) where
  | insert (lua : Lua α) (value : α)
  | remove (lua : Lua α) (value : α)

namespace IndexedSet

variable {α : Type}

def find (s : IndexedSet α) (value : α) : Bool := (s.reverse value).isSome

def findindex (s : IndexedSet α) (value : α) : Option Nat := s.reverse value

variable [DecidableEq α]

def insert (s : IndexedSet α) (lua : Lua α) (value : α) : IndexedSet α :=
  match s.reverse value with
  | some _ => s
  | none =>
    let set := Function.update s.set (lua.length s.set + 1) (some value)
    { set := set, reverse := Function.update s.reverse value (some (lua.length set)) }

-- A comparison that raises leaves the set as it is at that point.
def remove (s : IndexedSet α) (lua : Lua α) (value : α) : IndexedSet α :=
  match s.reverse value with
  | none => s
  | some index =>
    let reverse := Function.update s.reverse value none
    let n := lua.length s.set
    let set := Function.update s.set n none
    match s.set n with
    -- `nil` is no key, the assignment to `reverse` raises.
    | none => { set := set, reverse := reverse }
    | some top =>
      match lua.eq top value with
      | none => { set := set, reverse := reverse }
      | some true => { set := set, reverse := reverse }
      | some false =>
        {
          set := Function.update set index (some top)
          reverse := Function.update reverse top (some index)
        }

def step (s : IndexedSet α) (op : Op α) : IndexedSet α :=
  match op with
  | .insert lua value => s.insert lua value
  | .remove lua value => s.remove lua value

end IndexedSet

variable {α : Type}

def contents (known : Set α) (op : Op α) : Set α :=
  match op with
  | .insert _ value => insert value known
  | .remove _ value => known \ {value}

structure InStep (s : IndexedSet α) (known : Set α) : Prop where
  dense : ∃ n, ∀ i, s.set i ≠ none ↔ 1 ≤ i ∧ i ≤ n
  distinct : ∀ i j v, s.set i = some v → s.set j = some v → i = j
  reverse : ∀ v i, s.reverse v = some i ↔ s.set i = some v
  find : ∀ v, s.find v = true ↔ v ∈ known
  findindex : ∀ v i, s.findindex v = some i → s.set i = some v

/--
A value that is removed is told from the last one, if this is another one.
-/
def Separates (s : IndexedSet α) (op : Op α) : Prop :=
  match op with
  | .insert _ _ => True
  | .remove lua value =>
    s.find value = true →
      ∀ top, s.set (lua.length s.set) = some top → top ≠ value → lua.eq top value = some false

namespace InStep

variable {s : IndexedSet α} {known : Set α}

theorem inverse (h : InStep s known) : Inverse s.reverse s.set := h.reverse

theorem of_inverse {n : Nat} (hdense : ∀ i, s.set i ≠ none ↔ 1 ≤ i ∧ i ≤ n)
    (hinverse : Inverse s.reverse s.set) (hfind : ∀ v, s.reverse v ≠ none ↔ v ∈ known)
    : InStep s known where
  dense := ⟨n, hdense⟩
  distinct := fun _ _ _ hi hj => hinverse.unique hi hj
  reverse := hinverse
  find := by
    intro v
    rw [← hfind]
    simp [IndexedSet.find, Option.isSome_iff_ne_none]
  findindex := fun v i hi => (hinverse v i).mp hi

theorem find_iff (h : InStep s known) (v : α) : s.reverse v ≠ none ↔ v ∈ known := by
  rw [← h.find, IndexedSet.find, Option.isSome_iff_ne_none]

theorem newset : InStep (newset : IndexedSet α) ∅ := by
  apply of_inverse (n := 0)
  . intro i
    simp [Newset.newset]
    omega
  . exact Inverse.empty
  . simp [Newset.newset]

theorem dense_pop {n : Nat} (hdense : ∀ i, s.set i ≠ none ↔ 1 ≤ i ∧ i ≤ n) (i : Nat)
    : Function.update s.set n none i ≠ none ↔ 1 ≤ i ∧ i ≤ n - 1 := by
  by_cases hi : i = n
  . simp [hi]
    omega
  . rw [Function.update_of_ne hi, hdense]
    omega

theorem dense_push {n : Nat} (hdense : ∀ i, s.set i ≠ none ↔ 1 ≤ i ∧ i ≤ n) (value : α) (i : Nat)
    : Function.update s.set (n + 1) (some value) i ≠ none ↔ 1 ≤ i ∧ i ≤ n + 1 := by
  by_cases hi : i = n + 1
  . simp [hi]
  . rw [Function.update_of_ne hi, hdense]
    omega

variable [DecidableEq α]

theorem insert_eq {n : Nat} (hdense : ∀ i, s.set i ≠ none ↔ 1 ≤ i ∧ i ≤ n) (lua : Lua α)
    {value : α} (hreverse : s.reverse value = none)
    : s.insert lua value
        = ⟨Function.update s.set (n + 1) (some value),
            Function.update s.reverse value (some (n + 1))⟩ := by
  unfold IndexedSet.insert
  rw [hreverse, lua.length_eq s.set n hdense]
  dsimp only
  rw [lua.length_eq _ _ (dense_push hdense value)]

theorem insert (h : InStep s known) (lua : Lua α) (value : α)
    : InStep (s.insert lua value) (Insert.insert value known) := by
  obtain ⟨n, hdense⟩ := h.dense
  cases hreverse : s.reverse value with
  | some index =>
    have hmem : value ∈ known := by
      rw [← h.find_iff, hreverse]
      simp
    rw [Set.insert_eq_of_mem hmem, IndexedSet.insert, hreverse]
    exact h
  | none =>
    have hfree : s.set (n + 1) = none := by
      by_contra hne
      have := (hdense (n + 1)).mp hne
      omega
    rw [insert_eq hdense lua hreverse]
    apply of_inverse (dense_push hdense value)
    . exact h.inverse.insert hreverse hfree
    . intro v
      by_cases hv : v = value
      . simp [hv]
      . simp [hv, h.find_iff]

theorem remove_last (h : InStep s known) {n : Nat} (hdense : ∀ i, s.set i ≠ none ↔ 1 ≤ i ∧ i ≤ n)
    {value : α} (hvalue : s.set n = some value)
    : InStep ⟨Function.update s.set n none, Function.update s.reverse value none⟩
        (known \ {value}) := by
  apply of_inverse (dense_pop hdense)
  . exact h.inverse.erase hvalue
  . intro v
    by_cases hv : v = value
    . simp [hv]
    . simp [hv, h.find_iff]

theorem remove_replaced (h : InStep s known) {n index : Nat}
    (hdense : ∀ i, s.set i ≠ none ↔ 1 ≤ i ∧ i ≤ n)
    {top value : α} (htop : s.set n = some top) (hvalue : s.set index = some value)
    (hne : top ≠ value)
    : InStep
        ⟨Function.update (Function.update s.set n none) index (some top),
          Function.update (Function.update s.reverse value none) top (some index)⟩
        (known \ {value}) := by
  have hindex := (hdense index).mp (by simp [hvalue])
  have hlast : index ≠ n := by
    rintro rfl
    rw [hvalue, Option.some.injEq] at htop
    exact hne htop.symm
  apply of_inverse (n := n - 1)
  . intro i
    dsimp only
    by_cases hi : i = index
    . simp [hi]
      omega
    . rw [Function.update_of_ne hi]
      exact dense_pop hdense i
  . exact h.inverse.replace hvalue htop hne
  . intro v
    by_cases hv : v = top
    . have hmem : top ∈ known := by
        rw [← h.find_iff, (h.reverse top n).mpr htop]
        simp
      simp [hv, hmem, hne]
    . by_cases hv' : v = value
      . simp [hv', Ne.symm hne]
      . simp [hv, hv', h.find_iff]

theorem not_of_kept (known : Set α) {set : Nat → Option α} (reverse : α → Option Nat) {index : Nat}
    {value : α} (hset : set index = some value)
    : ¬InStep ⟨set, Function.update reverse value none⟩ known := by
  intro h
  have := (h.reverse value index).mpr hset
  simp at this

theorem remove_iff (h : InStep s known) (lua : Lua α) (value : α)
    : InStep (s.remove lua value) (known \ {value}) ↔ Separates s (.remove lua value) := by
  obtain ⟨n, hdense⟩ := h.dense
  have hlength := lua.length_eq s.set n hdense
  unfold IndexedSet.remove Separates
  dsimp only
  rw [h.find, ← h.find_iff, hlength]
  cases hreverse : s.reverse value with
  | none =>
    have hmem : value ∉ known := by
      rw [← h.find_iff, hreverse]
      simp
    rw [Set.sdiff_singleton_eq_self hmem]
    simp [h]
  | some index =>
    have hindex := (h.reverse value index).mp hreverse
    have hrange := (hdense index).mp (by simp [hindex])
    obtain ⟨top, htop⟩ := Option.ne_none_iff_exists'.mp ((hdense n).mpr ⟨by omega, le_rfl⟩)
    dsimp only
    rw [htop]
    dsimp only
    by_cases heq : top = value
    . subst heq
      rw [lua.eq_self]
      have := h.remove_last hdense htop
      simp [this]
    . have hlast : index ≠ n := by
        rintro rfl
        rw [hindex, Option.some.injEq] at htop
        exact heq htop.symm
      have hkept : Function.update s.set n none index = some value := by
        rw [Function.update_of_ne hlast, hindex]
      cases hcmp : lua.eq top value with
      | none =>
        have := not_of_kept (known \ {value}) s.reverse hkept
        simp [this, heq, hcmp]
      | some equal =>
        cases equal with
        | true =>
          have := not_of_kept (known \ {value}) s.reverse hkept
          simp [this, heq, hcmp]
        | false =>
          have := h.remove_replaced hdense htop hindex heq
          simp [this, hcmp]

end InStep

section

variable [DecidableEq α]

def tracked (s : IndexedSet α × Set α) (op : Op α) : IndexedSet α × Set α :=
  (s.1.step op, contents s.2 op)

def run (history : List (Op α)) : IndexedSet α × Set α :=
  history.foldl tracked (newset, ∅)

theorem inStep_tracked {s : IndexedSet α × Set α} (h : InStep s.1 s.2) (op : Op α)
    : InStep (tracked s op).1 (tracked s op).2 ↔ Separates s.1 op := by
  cases op with
  | insert lua value =>
    constructor
    . intro _
      trivial
    . intro _
      exact h.insert lua value
  | remove lua value => exact h.remove_iff lua value

theorem inStep_iff (history : List (Op α))
    : (∀ past, past <+: history → InStep (run past).1 (run past).2)
        ↔
      Throughout (fun past op => Separates (run past).1 op) history := by
  unfold run
  apply Throughout.foldl_iff (I := fun _ => True)
    (Q := fun s : IndexedSet α × Set α => InStep s.1 s.2)
    (C := fun s op => Separates s.1 op) (W := fun _ => True)
  . exact InStep.newset
  . intro s op _ h _
    exact inStep_tracked h op
  . intro _ _
    trivial
  . intro _ _
    trivial

def Op.lua (op : Op α) : Lua α :=
  match op with
  | .insert lua _ => lua
  | .remove lua _ => lua

theorem inStep_of_identity {history : List (Op α)}
    (h : ∀ op ∈ history, ∀ a b, a ≠ b → op.lua.eq a b = some false)
    : InStep (run history).1 (run history).2 := by
  induction history using List.reverseRecOn with
  | nil => exact InStep.newset
  | append_singleton past op ih =>
    have hpast := ih fun op hop => h op (by simp [hop])
    have hop := h op (by simp)
    unfold run
    rw [List.foldl_append]
    apply (inStep_tracked hpast op).mpr
    cases op with
    | insert lua value => trivial
    | remove lua value =>
      intro _ top _ hne
      exact hop top value hne

end

inductive Number where
  | first
  | second
  deriving DecidableEq, Repr

open Classical in
noncomputable def Number.lua : Lua Number where
  eq := fun _ _ => some true
  length := fun t => if h : ∃ n, ∀ i, t i ≠ none ↔ 1 ≤ i ∧ i ≤ n then h.choose else 0
  eq_self := fun _ => rfl
  length_eq := by
    intro t n hn
    have hex : ∃ n, ∀ i, t i ≠ none ↔ 1 ≤ i ∧ i ≤ n := ⟨n, hn⟩
    rw [dif_pos hex]
    have hchoose := hex.choose_spec
    generalize hex.choose = m at hchoose
    have hm := (hn m).symm.trans (hchoose m)
    have hn' := (hn n).symm.trans (hchoose n)
    omega

theorem not_inStep_of_equal
    : ¬∀ history : List (Op Number), ∀ past, past <+: history →
        InStep (run past).1 (run past).2 := by
  intro h
  have hsecond := h [.insert Number.lua .first, .insert Number.lua .second] _ (List.prefix_refl _)
  have hremove := h [.insert Number.lua .first, .insert Number.lua .second,
    .remove Number.lua .first] _ (List.prefix_refl _)
  have hseparates := (inStep_tracked hsecond (.remove Number.lua .first)).mp hremove
  have hempty : ∀ i, (newset : IndexedSet Number).set i ≠ none ↔ 1 ≤ i ∧ i ≤ 0 := by
    intro i
    simp only [newset]
    simp
    omega
  have hunknown : (newset : IndexedSet Number).reverse .first = none := rfl
  have hone := InStep.insert_eq hempty Number.lua hunknown
  have hpush : ∀ i, (newset.insert Number.lua .first).set i ≠ none ↔ 1 ≤ i ∧ i ≤ 1 := by
    rw [hone]
    exact InStep.dense_push hempty Number.first
  have hunknown' : (newset.insert Number.lua .first).reverse .second = none := by
    rw [hone]
    rfl
  have htwo := InStep.insert_eq hpush Number.lua hunknown'
  have hlength := Number.lua.length_eq _ 2 (InStep.dense_push hpush Number.second)
  have hstate : (run [.insert Number.lua .first, .insert Number.lua .second]).1
      = (newset.insert Number.lua .first).insert Number.lua .second := rfl
  rw [hstate, htwo] at hseparates
  have hfind : (newset.insert Number.lua .first).find .first = true := by
    rw [hone]
    rfl
  have hfalse := hseparates hfind .second (by rw [hlength]; rfl) (by decide)
  cases hfalse

end Newset
