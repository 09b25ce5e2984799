import BitFont.Proofs.Session.Performing
import Mathlib.Data.List.Forall2

/-!
# Actions that correspond

Two actions correspond if they end alike from any two sessions with related trees: both with a value
or both with a failure, and with related trees again (`Correspond`). Sequences and loops of actions
that correspond do so as well.
-/

namespace BitFont.Session

variable {α β γ δ ι κ : Type} {trees : FileTree → FileTree → Prop} {values : α → β → Prop}
  {results : γ → δ → Prop}

/-- Two actions have ended alike, with related trees, and with related values if they have any. -/
inductive EndAlike (trees : FileTree → FileTree → Prop) (values : α → β → Prop) :
    Except Failure α × Session → Except Failure β × Session → Prop
  | ok {value : α} {other : β} {here there : Session} (hvalues : values value other)
      (htrees : trees here.tree there.tree) :
      EndAlike trees values (.ok value, here) (.ok other, there)
  | error {failure other : Failure} {here there : Session}
      (htrees : trees here.tree there.tree) :
      EndAlike trees values (.error failure, here) (.error other, there)

namespace EndAlike

variable {here : Except Failure α × Session} {there : Except Failure β × Session}

theorem trees_of (h : EndAlike trees values here there) : trees here.2.tree there.2.tree := by
  cases h with
  | ok _ htrees => exact htrees
  | error htrees => exact htrees

theorem ok_iff {here there : Except Failure α × Session} (h : EndAlike trees Eq here there)
    (value : α) : there.1 = .ok value ↔ here.1 = .ok value := by
  cases h with
  | ok hvalues _ => rw [hvalues]
  | error _ => simp

theorem of_eq {here there : Except Failure α × Session} (h : there.1 = here.1)
    (htrees : trees here.2.tree there.2.tree) : EndAlike trees Eq here there := by
  obtain ⟨result, here⟩ := here
  obtain ⟨other, there⟩ := there
  obtain rfl : other = result := h
  cases other with
  | ok value => exact .ok rfl htrees
  | error failure => exact .error htrees

/-- Results of two file operations that succeed alike, whatever the words of their failures. -/
theorem of_toBool {result other : Except FileError Unit} (h : other.toBool = result.toBool)
    {here there : Session} (htrees : trees here.tree there.tree) (fails : FileError → Failure)
    (otherFails : FileError → Failure) :
    EndAlike trees Eq (result.mapError fails, here) (other.mapError otherFails, there) := by
  cases result with
  | ok value =>
    cases other with
    | ok value => exact .ok rfl htrees
    | error error => contradiction
  | error error =>
    cases other with
    | ok value => contradiction
    | error error => exact .error htrees

end EndAlike

/-- Actions that end alike wherever they start with related trees. -/
def Correspond (trees : FileTree → FileTree → Prop) (values : α → β → Prop)
    (action : Action (StateM Session) α) (other : Action (StateM Session) β) : Prop :=
  ∀ here there : Session, trees here.tree there.tree →
    EndAlike trees values (here.perform action) (there.perform other)

/-- Actions that correspond go on behind two that have ended alike. -/
theorem EndAlike.bind {here there : Session} {action : Action (StateM Session) α}
    {other : Action (StateM Session) β} {next : α → Action (StateM Session) γ}
    {otherNext : β → Action (StateM Session) δ}
    (h : EndAlike trees values (here.perform action) (there.perform other))
    (hnext : ∀ value otherValue, values value otherValue →
      Correspond trees results (next value) (otherNext otherValue)) :
    EndAlike trees results (here.perform (action >>= next)) (there.perform (other >>= otherNext)) := by
  rw [perform_bind, perform_bind]
  generalize here.perform action = performed at h ⊢
  generalize there.perform other = otherPerformed at h ⊢
  cases h with
  | ok hvalues htrees => exact hnext _ _ hvalues _ _ htrees
  | error htrees => exact .error htrees

namespace Correspond

theorem pure {value : α} {other : β} (h : values value other) :
    Correspond trees values (pure value) (pure other) := fun _ _ htrees => .ok h htrees

theorem notify (notice other : Notice) :
    Correspond trees Eq (Action.notify notice) (Action.notify other) :=
  fun _ _ htrees => .ok rfl htrees

theorem bind {action : Action (StateM Session) α} {other : Action (StateM Session) β}
    {next : α → Action (StateM Session) γ} {otherNext : β → Action (StateM Session) δ}
    (h : Correspond trees values action other)
    (hnext : ∀ value otherValue, values value otherValue →
      Correspond trees results (next value) (otherNext otherValue)) :
    Correspond trees results (action >>= next) (other >>= otherNext) :=
  fun here there htrees => (h here there htrees).bind hnext

theorem forM {items : List ι} {others : List κ} {each : ι → Action (StateM Session) Unit}
    {every : κ → Action (StateM Session) Unit}
    (h : List.Forall₂ (fun item other => Correspond trees Eq (each item) (every other))
      items others) :
    Correspond trees Eq (items.forM each) (others.forM every) := by
  induction h with
  | nil => exact .pure rfl
  | cons hitem _ ih => exact hitem.bind fun _ _ _ => ih

theorem mapM {items : List ι} {others : List κ} {each : ι → Action (StateM Session) α}
    {every : κ → Action (StateM Session) β}
    (h : List.Forall₂ (fun item other => Correspond trees values (each item) (every other))
      items others) :
    Correspond trees (List.Forall₂ values) (items.mapM each) (others.mapM every) := by
  induction h with
  | nil => exact .pure .nil
  | cons hitem _ ih =>
    rw [List.mapM_cons, List.mapM_cons]
    refine hitem.bind fun value other hvalues => ih.bind fun rest others hrest => ?_
    exact .pure (.cons hvalues hrest)

end Correspond

end BitFont.Session
