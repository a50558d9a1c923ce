import SkynetAoi.Aoi.Synced
import SkynetAoi.Caoi.Enter
import SkynetAoi.Scene.Invariant

/-!
This module contains how the tracks of the `caoi` service follow the objects of the map service, and
how the distances that the two services compute are related.
-/

namespace Scene

variable {Agent : Type} {kind : UInt32 → Aoi.CharType}

def tenth (pos : Point) : Point where
  x := pos.x / 10
  y := pos.y / 10
  z := pos.z / 10

theorem dist2_tenth (p q : Point) : Point.dist2 (tenth p) (tenth q) = Point.dist2 p q / 100 := by
  unfold Point.dist2 tenth
  ring

theorem floor_error (x : ℚ) : (x - ⌊x⌋) * (x - ⌊x⌋) ≤ 1 := by
  have hlower : 0 ≤ x - ⌊x⌋ := sub_nonneg.mpr (Int.floor_le x)
  have hupper : x - ⌊x⌋ ≤ 1 := by
    have := Int.lt_floor_add_one x
    linarith
  calc (x - ⌊x⌋) * (x - ⌊x⌋) ≤ 1 * 1 := mul_self_le_mul_self hlower hupper
    _ = 1 := by ring

theorem dist2_scaled (pos : Point) : Point.dist2 (tenth pos) (Aoi.scaled pos) ≤ 2 * 2 := by
  have hx := floor_error (pos.x / 10)
  have hy := floor_error (pos.y / 10)
  have hz := floor_error (pos.z / 10)
  unfold Point.dist2 tenth Aoi.scaled
  linarith

theorem dist2_le_of_scaled {p q : Point} {a : ℚ} (ha : 0 ≤ a)
    (h : Point.dist2 (Aoi.scaled p) (Aoi.scaled q) ≤ a * a)
    : Point.dist2 p q ≤ 100 * ((a + 4) * (a + 4)) := by
  have hp := dist2_scaled p
  have hq := dist2_scaled q
  rw [Point.dist2_comm] at hq
  have hleft := Point.dist2_triangle (by norm_num) ha hp h
  have hboth := Point.dist2_triangle (by linarith) (by norm_num) hleft hq
  rw [dist2_tenth] at hboth
  have : (2 + a + 2) * (2 + a + 2) = (a + 4) * (a + 4) := by ring
  linarith

theorem near_of_scaled {p q : Point}
    (h : Point.dist2 (Aoi.scaled p) (Aoi.scaled q) < Caoi.aoiRadis2)
    : Point.dist2 p q ≤ Aoi.aoiRadis2 := by
  have hle : Point.dist2 (Aoi.scaled p) (Aoi.scaled q) ≤ 40 * 40 := le_of_lt h
  have := dist2_le_of_scaled (by norm_num) hle
  unfold Aoi.aoiRadis2 Aoi.aoiRadis
  linarith

theorem scaled_far {p q : Point} (h : Aoi.leaveAoiRadis2 < Point.dist2 p q)
    : 120 * 120 < Point.dist2 (Aoi.scaled p) (Aoi.scaled q) := by
  apply lt_of_not_ge
  intro hle
  have := dist2_le_of_scaled (by norm_num) hle
  unfold Aoi.leaveAoiRadis2 Aoi.aoiRadis2 Aoi.aoiRadis at h
  linarith

def OutsideBefore (events : List Caoi.Event) (w m : UInt32) : Prop :=
  ∃ before after tw tm, events = before ++ .message :: after
    ∧ .message ∉ after
    ∧ Caoi.track before w = some tw
    ∧ Caoi.track before m = some tm
    ∧ Caoi.aoiRadis2 ≤ Point.dist2 tw.position tm.position

/--
Two ids that are far apart have not come from inside the radius since the last `aoi_message` without
being marked as moved: they are less than half the radius from their anchors, and they were then.
-/
theorem outsideBefore_of_far {events : List Caoi.Event} {w m : UInt32} {tw tm : Caoi.Track}
    (hw : Caoi.track events w = some tw) (hm : Caoi.track events m = some tm)
    (hmovedw : tw.moved = false) (hmovedm : tm.moved = false)
    (hfar : 120 * 120 < Point.dist2 tw.position tm.position) : OutsideBefore events w m := by
  have hmessage : .message ∈ events := by
    by_contra hnone
    rw [Caoi.moved_of_no_message hnone hw] at hmovedw
    simp at hmovedw
  obtain ⟨before, after, rfl, hafter⟩ := exists_last_of_mem hmessage
  obtain ⟨⟨tw0, hw0, hlastw, -⟩, -⟩ := Caoi.track_before hafter hw hmovedw
  obtain ⟨⟨tm0, hm0, hlastm, -⟩, -⟩ := Caoi.track_before hafter hm hmovedm
  refine ⟨before, after, tw0, tm0, rfl, hafter, hw0, hm0, ?_⟩
  apply le_of_not_gt
  intro hnear
  have hquarter : Caoi.aoiRadis2 / 4 = 20 * 20 := by
    unfold Caoi.aoiRadis2 Caoi.aoiRadis
    norm_num
  have hanchorw := Caoi.track_anchor hw
  have hanchorm := Caoi.track_anchor hm
  have hanchorw0 := Caoi.track_anchor hw0
  have hanchorm0 := Caoi.track_anchor hm0
  rw [hquarter] at hanchorw hanchorm hanchorw0 hanchorm0
  rw [hlastw, Point.dist2_comm] at hanchorw0
  rw [hlastm] at hanchorm0
  rw [Point.dist2_comm] at hanchorm
  have hinside : Point.dist2 tw0.position tm0.position ≤ 40 * 40 := le_of_lt hnear
  have h1 := Point.dist2_triangle (by norm_num) (by norm_num) hanchorw hanchorw0
  have h2 := Point.dist2_triangle (by norm_num) (by norm_num) h1 hinside
  have h3 := Point.dist2_triangle (by norm_num) (by norm_num) h2 hanchorm0
  have h4 := Point.dist2_triangle (by norm_num) (by norm_num) h3 hanchorm
  linarith

def Follows (last : Option (List Char × Point)) (track : Option Caoi.Track) : Prop :=
  match last with
  | none => track = none
  | some (mode, pos) =>
    if 'd' ∈ mode then
      track = none
    else
      ∃ t, track = some t
        ∧ t.position = pos
        ∧ t.watcher = decide ('w' ∈ mode)
        ∧ t.marker = decide ('m' ∈ mode)

theorem Follows.update (track : Option Caoi.Track) (mode : List Char) (pos : Point)
    : Follows (some (mode, pos)) (Caoi.Track.update track mode pos) := by
  unfold Follows Caoi.Track.update
  dsimp only
  split
  . rfl
  . cases track with
    | none => exact ⟨_, rfl, rfl, rfl, rfl⟩
    | some t =>
      dsimp only
      split
      . exact ⟨_, rfl, rfl, rfl, rfl⟩
      . next hmarks =>
        simp only [Caoi.Track.marks, Bool.or_eq_true, bne_iff_ne, not_or, not_not] at hmarks
        exact ⟨_, rfl, rfl, hmarks.1.1, hmarks.1.2⟩

theorem Follows.message {last : Option (List Char × Point)} {track : Option Caoi.Track}
    (h : Follows last track) : Follows last (track.map fun t => { t with moved := false }) := by
  unfold Follows at h ⊢
  split at h
  . rw [h]
    rfl
  . split at h
    . next hd =>
      rw [if_pos hd, h]
      rfl
    . next hd =>
      obtain ⟨t, rfl, hpos, hw, hm⟩ := h
      rw [if_neg hd]
      exact ⟨_, rfl, hpos, hw, hm⟩

theorem track_follows (texts : List (Aoi.Text UInt32)) (id : UInt32)
    : Follows (Aoi.lastUpdate texts id) (Caoi.track (texts.map event) id) := by
  induction texts using List.reverseRecOn with
  | nil => rfl
  | append_singleton texts text ih =>
    rw [List.map_append, List.map_cons, List.map_nil]
    cases text with
    | message =>
      rw [Aoi.lastUpdate_append_message, event, Caoi.track_message]
      exact ih.message
    | update k mode pos =>
      rw [Aoi.lastUpdate_append_update, event, Caoi.track_update]
      split
      . apply Follows.update
      . exact ih

theorem track_of_present {s : Scene Agent} (hinv : Inv kind s) (hsynced : Aoi.Synced s.aoi)
    {id : UInt32} {o : Aoi.Obj UInt32 Agent} (h : s.aoi.OBJ id = some o)
    : ∃ t, Caoi.track s.events id = some t
        ∧ t.position = Aoi.scaled o.pos
        ∧ (kind id = .player → t.watcher = true)
        ∧ t.marker = true := by
  have hfollows := track_follows s.aoi.texts id
  rw [hsynced.present id o h, (hinv.tables.obj id o h).2.2] at hfollows
  unfold Follows at hfollows
  cases hkind : kind id with
  | player =>
    simp only [hkind, Aoi.modeOf] at hfollows
    rw [if_neg (by decide)] at hfollows
    obtain ⟨t, ht, hpos, hw, hm⟩ := hfollows
    exact ⟨t, ht, hpos, fun _ => hw, hm⟩
  | monster =>
    simp only [hkind, Aoi.modeOf] at hfollows
    rw [if_neg (by decide)] at hfollows
    obtain ⟨t, ht, hpos, -, hm⟩ := hfollows
    exact ⟨t, ht, hpos, by simp, hm⟩

theorem track_of_absent {s : Scene Agent} (hsynced : Aoi.Synced s.aoi) {id : UInt32}
    (h : s.aoi.OBJ id = none) : Caoi.track s.events id = none := by
  have hfollows := track_follows s.aoi.texts id
  rcases hsynced.absent id h with hnone | ⟨pos, hdrop⟩
  . rw [hnone] at hfollows
    exact hfollows
  . rw [hdrop] at hfollows
    exact hfollows

end Scene
