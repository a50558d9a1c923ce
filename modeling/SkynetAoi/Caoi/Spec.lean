import SkynetAoi.Caoi.Space
import SkynetAoi.Lib.History

/-!
This module contains the specification of the `caoi` service. It speaks about the events that the
service has received and about nothing else: what they say about one id is a `Track`, and which
pairs an `aoi_message` has to report is `Reportable`.
-/

namespace Caoi

-- The ids that the map can tell from a free slot.
def Event.Valid (event : Event) : Prop :=
  match event with
  | .update id _ _ => id ≠ invalidId
  | .message => True

structure Track where
  watcher : Bool
  marker : Bool
  position : Point
  last : Point
  moved : Bool
  deriving DecidableEq, Repr

namespace Track

/--
Whether an update marks an id as moved: it is the first one, it changes the roles or it leaves half
the radius around the anchor `last`.
-/
def marks (track : Option Track) (modestring : List Char) (pos : Point) : Bool :=
  match track with
  | none => true
  | some t =>
    t.watcher != decide ('w' ∈ modestring)
      || t.marker != decide ('m' ∈ modestring)
      || !isNear pos t.last

def update (track : Option Track) (modestring : List Char) (pos : Point) : Option Track :=
  if 'd' ∈ modestring then
    none
  else
    match track with
    | some t =>
      if marks track modestring pos then
        some ⟨'w' ∈ modestring, 'm' ∈ modestring, pos, pos, true⟩
      else
        some { t with position := pos }
    | none => some ⟨'w' ∈ modestring, 'm' ∈ modestring, pos, pos, true⟩

def step (id : UInt32) (track : Option Track) (event : Event) : Option Track :=
  match event with
  | .update id' modestring pos => if id' = id then update track modestring pos else track
  | .message => track.map fun t => { t with moved := false }

end Track

def track (events : List Event) (id : UInt32) : Option Track :=
  events.foldl (Track.step id) none

structure Pair (events : List Event) (w m : UInt32) (tw tm : Track) : Prop where
  ne : w ≠ m
  watcher_track : track events w = some tw
  marker_track : track events m = some tm
  watcher : tw.watcher = true
  marker : tm.marker = true

def Keeps (events : List Event) (event : Event) (w m : UInt32) : Prop :=
  match event with
  | .update id modestring pos =>
    id = w ∨ id = m → 'd' ∉ modestring ∧ Track.marks (track events id) modestring pos = false
  | .message =>
    ∃ tw tm, Pair events w m tw tm ∧ Point.dist2 tw.position tm.position = aoiRadis2

/--
The pair was put on the hot list by an `aoi_message` and every event since then has left it there.
-/
def StayedHot (events : List Event) (w m : UInt32) : Prop :=
  ∃ before after, events = before ++ .message :: after
    ∧ (∃ tw tm, Pair before w m tw tm
        ∧ (tw.moved ∨ tm.moved)
        ∧ Point.dist2 tw.position tm.position = aoiRadis2)
    ∧ Throughout (fun a event => Keeps (before ++ .message :: a) event w m) after

def Reportable (events : List Event) (w m : UInt32) : Prop :=
  ∃ tw tm, Pair events w m tw tm
    ∧ Point.dist2 tw.position tm.position < aoiRadis2
    ∧ (tw.moved ∨ tm.moved ∨ StayedHot events w m)

end Caoi
