/-!
# Tasks that wait for each other

Tasks share a state.  A task that cannot go on falls asleep; what other tasks do to the state may
let it go on later, and when nothing else happens its time is up.

## What is here

* `Machine` — how a sleeping task looks at the state, and what it does when its time is up.
* `Schedule` — the state, the sleeping tasks in the order in which they fell asleep, and the answers
  of the tasks that have finished since.
* `Schedule.settle` — lets sleeping tasks look again until none of them can go on.
* `Schedule.elapse` — lets the time of the sleeping tasks run out, oldest first, and settles after
  each of them.

A task that goes on may fall asleep again; it then counts as having fallen asleep last.  The
number of turns is bounded by an argument.
-/

set_option autoImplicit false
namespace TableStore

/-- What a task does when it gets a turn. -/
inductive Turn (τ ω : Type) where
  /-- It finishes with an answer. -/
  | finish (answer : ω)
  /-- It goes on, and falls asleep as another task. -/
  | sleep (task : τ)
  /-- It cannot go on. -/
  | stay

/-- How tasks `τ` with answers `ω` behave over a state `σ`. -/
structure Machine (σ τ ω : Type) where
  /-- Another look at the state. -/
  wake : σ → τ → Turn τ ω × σ
  /-- The last look, when the time is up. -/
  expire : σ → τ → Turn τ ω × σ

/-- A shared state with its tasks, which are known by numbers. -/
structure Schedule (σ τ ω : Type) where
  state : σ
  /-- The sleeping tasks, in the order in which they fell asleep. -/
  asleep : List (Nat × τ)
  /-- The answers of finished tasks. -/
  finished : List (Nat × ω)

namespace Schedule

variable {σ τ ω : Type}

/-- Records what a task did in its turn. -/
def record (s : Schedule σ τ ω) (i : Nat) (turn : Turn τ ω) (state : σ) : Schedule σ τ ω :=
  let others := s.asleep.filter fun e => e.1 ≠ i
  match turn with
  | .finish answer => ⟨state, others, s.finished ++ [(i, answer)]⟩
  | .sleep task => ⟨state, others ++ [(i, task)], s.finished⟩
  | .stay => { s with state }

/-- The turn of the first of some sleeping tasks that can go on. -/
def rouse (m : Machine σ τ ω) (s : Schedule σ τ ω) :
    List (Nat × τ) → Option (Schedule σ τ ω)
  | [] => none
  | (i, task) :: rest =>
    match m.wake s.state task with
    | (.stay, _) => rouse m s rest
    | (turn, state) => some (s.record i turn state)

/-- Lets sleeping tasks go on, at most `turns` times, until none of them can. -/
def settle (m : Machine σ τ ω) : Nat → Schedule σ τ ω → Schedule σ τ ω
  | 0, s => s
  | turns + 1, s =>
    match s.rouse m s.asleep with
    | none => s
    | some s => settle m turns s

/-- Lets the time of the sleeping tasks run out, at most `turns` times, and settles after each. -/
def elapse (m : Machine σ τ ω) (turns : Nat) : Nat → Schedule σ τ ω → Schedule σ τ ω
  | 0, s => s
  | n + 1, s =>
    match s.asleep with
    | [] => s
    | (i, task) :: _ =>
      let (turn, state) := m.expire s.state task
      elapse m turns n ((s.record i turn state).settle m turns)

end Schedule
end TableStore
