import SkynetAoi.Aoi.Lemmas.Callback
import SkynetAoi.Aoi.Lemmas.Enter
import SkynetAoi.Aoi.Lemmas.Leave
import SkynetAoi.Lib.History

/-!
This module contains what one request comes to and that the invariant holds after every run.
-/

namespace Aoi

variable {Id Agent : Type} [DecidableEq Id] {kind : Id → CharType}

inductive HandleResult (kind : Id → CharType) (s : State Id Agent)
    : Action Id Agent → Result Id Agent Unit → Prop where
  | enter (order : PairsOrder Id) (obj : Obj Id Agent) (result : Result Id Agent Unit)
      (h : EnterResult kind s obj result)
    : HandleResult kind s (.enter order obj) result
  | leave (order : PairsOrder Id) (obj : Obj Id Agent) (s' : State Id Agent) (h : Left s obj s')
    : HandleResult kind s (.leave order obj) (.ok () s')
  | aoicallback (w m : Id) (s' : State Id Agent) (h : CallbackResult kind s w m s')
    : HandleResult kind s (.aoicallback w m) (.ok () s')
  | messageUpdate : HandleResult kind s .messageUpdate (.ok () (Aoi.messageUpdate s))

theorem Inv.messageUpdate {s : State Id Agent} (h : Inv kind s) : Inv kind (messageUpdate s) := by
  unfold Aoi.messageUpdate
  split
  . exact h.congr rfl rfl rfl
  . exact h

theorem handle_spec {s : State Id Agent} (hinv : Inv kind s) {action : Action Id Agent}
    (hwf : action.WF kind)
    : Inv kind (outcome (handle action s)) ∧ HandleResult kind s action (handle action s) := by
  unfold handle
  cases action with
  | enter order obj =>
    dsimp only
    obtain ⟨hinv', hresult⟩ := enter_spec hinv order hwf
    exact ⟨hinv', .enter order obj _ hresult⟩
  | leave order obj =>
    obtain ⟨s', hleave, hinv', hleft⟩ := leave_spec hinv order hwf
    dsimp only
    rw [hleave]
    exact ⟨hinv', .leave order obj s' hleft⟩
  | aoicallback w m =>
    obtain ⟨s', hcallback, hinv', hresult⟩ := aoicallback_spec hinv hwf.1 hwf.2
    dsimp only
    rw [hcallback]
    exact ⟨hinv', .aoicallback w m s' hresult⟩
  | messageUpdate => exact ⟨hinv.messageUpdate, .messageUpdate⟩

theorem after_append (actions : List (Action Id Agent)) (action : Action Id Agent)
    : after (actions ++ [action]) = outcome (handle action (after actions)) := by
  unfold after
  rw [List.foldl_append]
  rfl

/--
An invariant of the requests holds after every run of them, for requests that meet a condition on the
state they are handled in.
-/
theorem after_invariant {P : State Id Agent → Prop} {C : State Id Agent → Action Id Agent → Prop}
    (hinit : P .init)
    (hstep : ∀ s action, Inv kind s → P s → action.WF kind → C s action →
      P (outcome (handle action s)))
    {actions : List (Action Id Agent)} (hwf : ∀ action ∈ actions, action.WF kind)
    (hC : Throughout (fun past action => C (after past) action) actions)
    : Inv kind (after actions) ∧ P (after actions) := by
  unfold after at hC ⊢
  apply Throughout.foldl_invariant (Q := fun s => Inv kind s ∧ P s) ⟨Inv.init, hinit⟩ _ hwf hC
  rintro s action ⟨hinv, hP⟩ hwf hC
  exact ⟨(handle_spec hinv hwf).1, hstep s action hinv hP hwf hC⟩

theorem after_inv {actions : List (Action Id Agent)} (hwf : ∀ action ∈ actions, action.WF kind)
    : Inv kind (after actions) := by
  have := after_invariant (P := fun _ => True) trivial (C := fun _ _ => True)
    (by
      intros
      trivial)
    hwf
    (by
      intros before a rest heq
      trivial)
  exact this.1

end Aoi
