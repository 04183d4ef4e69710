import Uniwm.Base.Machine

/-!
# Base — handles that are opened, used and closed

A program gets handles from a system that may hand out a value again once it is closed. What
the program owes is that it uses and closes only what it has open; what it may rely on is that
what it is given is not open already.

* `HandleEvent.Fresh` and `HandleEvent.Lawful` are the two sides of one event.
* `Runs` joins them: it is what must hold before a list of events so that each is lawful, and
  `post` holds after them, as long as the system keeps its side. Lists of events compose
  (`runs_append`), and `Runs.mono` weakens the end.
* `Runs.sound` says what has then been shown of the whole list.
-/

namespace Uniwm.Base

variable {α : Type*}

/-- What happens to a handle. -/
inductive HandleEvent (α : Type*) where
  | opens (x : α)
  | uses (x : α)
  | closes (x : α)
deriving DecidableEq, Repr

namespace HandleEvent

/-- What a system promises of an event, for the handles that are open. -/
def Fresh (held : List α) : HandleEvent α → Prop
  | opens x => x ∉ held
  | _ => True

/-- What a program owes. -/
def Lawful (held : List α) : HandleEvent α → Prop
  | opens _ => True
  | uses x => x ∈ held
  | closes x => x ∈ held

/-- What is open afterwards. -/
def after [DecidableEq α] (held : List α) : HandleEvent α → List α
  | opens x => x :: held
  | uses _ => held
  | closes x => held.erase x

/-- The handles that are open, as a machine. -/
def step [DecidableEq α] (held : List α) (e : HandleEvent α) : List α × Unit := (e.after held, ())

end HandleEvent

variable [DecidableEq α]

/-- The events are lawful one after the other, and `post` holds of what is open at the end, as
long as the system keeps its promise. -/
def Runs (post : List α → Prop) : List (HandleEvent α) → List α → Prop
  | [], held => post held
  | e :: es, held => e.Fresh held → e.Lawful held ∧ Runs post es (e.after held)

variable {post post' : List α → Prop} {held : List α} {es es' : List (HandleEvent α)}

theorem runs_opens {x : α} :
    Runs post (.opens x :: es) held ↔ (x ∉ held → Runs post es (x :: held)) := by
  refine imp_congr_right fun _ => ?_
  exact and_iff_right trivial

theorem runs_uses {x : α} : Runs post (.uses x :: es) held ↔ x ∈ held ∧ Runs post es held := by
  exact ⟨fun h => h trivial, fun h _ => h⟩

theorem runs_closes {x : α} :
    Runs post (.closes x :: es) held ↔ x ∈ held ∧ Runs post es (held.erase x) := by
  exact ⟨fun h => h trivial, fun h _ => h⟩

/-- One list of events after the other. -/
theorem runs_append : Runs post (es ++ es') held ↔ Runs (Runs post es') es held := by
  induction es generalizing held with
  | nil => exact Iff.rfl
  | cons e es ih =>
    show (e.Fresh held → e.Lawful held ∧ Runs post (es ++ es') (e.after held)) ↔ _
    rw [ih]
    rfl

theorem Runs.mono (h : Runs post es held) (hpost : ∀ held, post held → post' held) :
    Runs post' es held := by
  induction es generalizing held with
  | nil => exact hpost held h
  | cons e es ih =>
    intro hfresh
    obtain ⟨hlawful, hrest⟩ := h hfresh
    exact ⟨hlawful, ih hrest⟩

/-- If what is opened is never open already, then all that is used or closed is open, and what
is left is as `post` says. -/
theorem Runs.sound (h : Runs post es held)
    (hfresh : AtEachStep HandleEvent.step (fun held e _ => e.Fresh held) held es) :
    AtEachStep HandleEvent.step (fun held e _ => e.Lawful held) held es ∧
      post (final HandleEvent.step held es) := by
  induction es generalizing held with
  | nil => exact ⟨atEachStep_nil, h⟩
  | cons e es ih =>
    rw [atEachStep_cons] at hfresh ⊢
    obtain ⟨hlawful, hrest⟩ := h hfresh.1
    obtain ⟨hall, hend⟩ := ih hrest hfresh.2
    exact ⟨⟨hlawful, hall⟩, hend⟩

end Uniwm.Base
