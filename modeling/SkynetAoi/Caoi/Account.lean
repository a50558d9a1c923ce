import SkynetAoi.Caoi.Correct
import SkynetAoi.Caoi.Lemmas.Balance

/-!
This module contains the balance of the allocator: between two calls the cookie counts exactly the
blocks that the space holds, each with the size it has now, and `aoi_release` gives all of them back.
-/

namespace Caoi

namespace Balanced

variable {space space' : AoiSpace}

theorem step {events : List Event} {event : Event} {cbs : List (UInt32 × UInt32)}
    (h : Balanced space space.hot.length) (hs : Sound events space) (hvalid : event.Valid)
    (hstep : Caoi.step space event = some (space', cbs)) : Balanced space' space'.hot.length := by
  cases event with
  | update id modestring pos =>
    obtain ⟨space1, hupdate, -, hsets, -⟩ := aoiUpdate_spec hs.counted hvalid modestring pos
    unfold Caoi.step at hstep
    dsimp only at hstep
    rw [hupdate] at hstep
    simp only [Option.some.injEq, Prod.mk.injEq] at hstep
    rw [← hstep.1, hsets.hot]
    exact h.aoiUpdate hupdate
  | message => exact h.aoiMessage hstep

end Balanced

theorem balanced_caoiCreate : Balanced caoiCreate caoiCreate.hot.length := by
  have hlive : caoiCreate.heap.live = ∅ := rfl
  unfold Balanced
  rw [hlive]
  constructor
  . rfl
  . rfl
  . decide

theorem runEvents_balanced {events : List Event} (hvalid : ∀ event ∈ events, event.Valid)
    : ∃ space, runEvents events = some space
        ∧ Sound events space
        ∧ Balanced space space.hot.length := by
  have hstep : ∀ past space event, Sound past space ∧ Balanced space space.hot.length →
      event.Valid →
      ∃ space', silentStep space event = some space'
        ∧ Sound (past ++ [event]) space'
        ∧ Balanced space' space'.hot.length := by
    rintro past space event ⟨hs, hb⟩ hok
    obtain ⟨space', cbs, hstep, hs', -⟩ := hs.step hok
    refine ⟨space', ?_, hs', hb.step hs hok hstep⟩
    unfold silentStep
    rw [hstep]
  exact run.total hstep ⟨Sound.init, balanced_caoiCreate⟩ hvalid

theorem Counted.length_foreach {space : AoiSpace} {ends : Nat → Nat} (hc : Counted space ends)
    : (mapForeach space.object).length = space.heap.live.card := by
  rw [← List.toFinset_card_of_nodup hc.nodup_foreach]
  congr 1
  ext addr
  rw [List.mem_toFinset, hc.mem_foreach, Heap.mem_live]

theorem deleteAll_spec (addrs : List Nat) (space : AoiSpace) (hnodup : addrs.Nodup)
    (hlive : ∀ a ∈ addrs, ∃ obj, space.heap.get a = some obj)
    : ∃ space', deleteAll space addrs = some space'
        ∧ SameSets space space'
        ∧ ∀ a, space'.heap.get a = if a ∈ addrs then none else space.heap.get a := by
  induction addrs generalizing space with
  | nil => exact ⟨space, rfl, SameSets.refl space, by simp⟩
  | cons addr addrs ih =>
    rw [List.nodup_cons] at hnodup
    obtain ⟨obj, hget⟩ := hlive addr (by simp)
    obtain ⟨heap, hfree, hheap⟩ := Heap.free_of_get hget
    have hdelete : deleteObject space addr
        = some { space with heap := heap, cookie := space.cookie.free sizeofObject } := by
      unfold deleteObject
      rw [hfree]
    obtain ⟨space', hall, hsets, hheap'⟩ :=
      ih { space with heap := heap, cookie := space.cookie.free sizeofObject } hnodup.2 (by
        intro a ha
        have hne : a ≠ addr := by
          intro heq
          rw [heq] at ha
          exact hnodup.1 ha
        dsimp only
        rw [hheap, if_neg hne]
        apply hlive
        simp [ha])
    refine ⟨space', ?_, SameSets.trans (by constructor <;> rfl) hsets, ?_⟩
    . unfold deleteAll
      rw [hdelete]
      exact hall
    . intro a
      rw [hheap']
      dsimp only
      rw [hheap]
      by_cases ha : a = addr
      . simp [ha]
      . simp [ha]

theorem Balanced.deleteAll {space space' : AoiSpace} {pairs : Nat} {addrs : List Nat}
    (h : Balanced space pairs) (hdelete : Caoi.deleteAll space addrs = some space')
    : Balanced space' pairs := by
  induction addrs generalizing space with
  | nil =>
    simp only [Caoi.deleteAll, Option.some.injEq] at hdelete
    rw [← hdelete]
    exact h
  | cons addr addrs ih =>
    unfold Caoi.deleteAll at hdelete
    split at hdelete
    . simp at hdelete
    . next hone => exact ih (h.deleteObject hone) hdelete

namespace AllocCookie.Owns

variable {cookie : AllocCookie} {count current : Int}

theorem mapDelete (h : cookie.Owns count current) (m : Map)
    : (Caoi.mapDelete cookie m).Owns (count - 2)
        (current - (sizeofMap + m.size * sizeofMapSlot)) := by
  apply ((h.free (m.size * sizeofMapSlot)).free sizeofMap).congr
  . omega
  . push_cast
    omega

theorem deletePairList (h : cookie.Owns count current) (hot : List PairList)
    : (Caoi.deletePairList cookie hot).Owns (count - hot.length)
        (current - hot.length * sizeofPairList) := by
  induction hot generalizing cookie count current with
  | nil => exact h.congr (by simp) (by simp)
  | cons p next ih =>
    apply (ih (h.free sizeofPairList)).congr
    . rw [List.length_cons]
      omega
    . rw [List.length_cons]
      push_cast
      ring

theorem deleteSet (h : cookie.Owns count current) (set : ObjectSet)
    : (Caoi.deleteSet cookie set).Owns (count - 2) (current - set.bytes) := by
  apply ((h.free (sizeofPointer * set.cap)).free sizeofObjectSet).congr
  . omega
  . unfold ObjectSet.bytes
    push_cast
    ring

end AllocCookie.Owns

theorem aoiRelease_spec {space : AoiSpace} (hc : Counted space (hotEnds space.hot))
    (h : Balanced space space.hot.length)
    : ∃ cookie, aoiRelease space = some cookie ∧ cookie.Owns 0 0 := by
  obtain ⟨space', hall, hsets, hheap⟩ := deleteAll_spec (mapForeach space.object) space
    hc.nodup_foreach
    (by
      intro a ha
      exact (hc.mem_foreach a).mp ha)
  have hempty : space'.heap.live = ∅ := by
    apply Finset.eq_empty_of_forall_notMem
    intro a ha
    rw [Heap.mem_live, hheap] at ha
    obtain ⟨o, ho⟩ := ha
    split at ho
    . simp at ho
    . next hnot =>
      rw [hc.mem_foreach] at hnot
      exact hnot ⟨o, ho⟩
  have h' := h.deleteAll hall
  unfold Balanced at h'
  rw [hempty, Finset.card_empty, ← hsets.hot] at h'
  unfold aoiRelease
  rw [hall]
  refine ⟨_, rfl, ?_⟩
  have h6 := (((((h'.mapDelete space'.object).deletePairList space'.hot).deleteSet
    space'.watcherStatic).deleteSet space'.markerStatic).deleteSet space'.watcherMove).deleteSet
    space'.markerMove
  apply (h6.free sizeofAoiSpace).congr
  . push_cast
    omega
  . unfold AoiSpace.fixedBytes
    push_cast
    omega

def blocks (space : AoiSpace) : List Nat :=
  [sizeofAoiSpace, sizeofMap, space.object.size * sizeofMapSlot,
    sizeofObjectSet, space.watcherStatic.cap * sizeofPointer,
    sizeofObjectSet, space.markerStatic.cap * sizeofPointer,
    sizeofObjectSet, space.watcherMove.cap * sizeofPointer,
    sizeofObjectSet, space.markerMove.cap * sizeofPointer]
    ++ (mapForeach space.object).map (fun _ => sizeofObject)
    ++ space.hot.map (fun _ => sizeofPairList)

theorem sum_blocks (space : AoiSpace)
    : (blocks space).sum
        =
      space.fixedBytes + (mapForeach space.object).length * sizeofObject
        + space.hot.length * sizeofPairList := by
  unfold blocks AoiSpace.fixedBytes ObjectSet.bytes
  rw [List.sum_append, List.sum_append, List.map_const', List.map_const', List.sum_replicate_nat,
    List.sum_replicate_nat]
  simp only [List.sum_cons, List.sum_nil]
  omega

theorem cookie_accounts_for_blocks (events : List Event) (hvalid : ∀ event ∈ events, event.Valid)
    : ∃ space, runEvents events = some space
        ∧ space.cookie.count = 11 + (mapForeach space.object).length + space.hot.length
        ∧ space.cookie.current = (blocks space).sum
        ∧ space.cookie.current ≤ space.cookie.max
        ∧ ∃ cookie, aoiRelease space = some cookie ∧ cookie.count = 0 ∧ cookie.current = 0 := by
  obtain ⟨space, hrun, hs, hb⟩ := runEvents_balanced hvalid
  obtain ⟨cookie, hrelease, howns⟩ := aoiRelease_spec hs.counted hb
  refine ⟨space, hrun, ?_, ?_, hb.max, cookie, hrelease, howns.count, howns.current⟩
  . rw [hs.counted.length_foreach]
    exact hb.count
  . rw [sum_blocks, hs.counted.length_foreach]
    push_cast
    exact hb.current

example
    : (runEvents [.update 1 ['w'] ⟨0, 0, 0⟩, .update 2 ['m'] ⟨40, 0, 0⟩, .message]).map (·.cookie)
        =
      some { count := 14, max := 1152, current := 1152 } := by
  decide +kernel

theorem cookie_accounts_for_blocks_hot
    : (∀ event ∈ [Event.update 1 ['w'] ⟨0, 0, 0⟩, .update 2 ['m'] ⟨40, 0, 0⟩, .message],
          event.Valid)
        ∧ ∃ space,
          runEvents [.update 1 ['w'] ⟨0, 0, 0⟩, .update 2 ['m'] ⟨40, 0, 0⟩, .message] = some space
            ∧ space.cookie.count = 11 + (mapForeach space.object).length + space.hot.length
            ∧ space.cookie.current = (blocks space).sum
            ∧ space.cookie.current ≤ space.cookie.max
            ∧ ∃ cookie, aoiRelease space = some cookie
              ∧ cookie.count = 0
              ∧ cookie.current = 0 := by
  have hvalid : ∀ event ∈ [Event.update 1 ['w'] ⟨0, 0, 0⟩, .update 2 ['m'] ⟨40, 0, 0⟩, .message],
      event.Valid := by
    simp [Event.Valid, invalidId]
  exact ⟨hvalid, cookie_accounts_for_blocks _ hvalid⟩

end Caoi
