/-
Sessions with turns at paths. Turns are reserved, taken up by tasks, and given back by name; other tasks run an
operation alone at a path, or wait until nobody has a turn there.
-/
import LiveFiles.Tasks
import LiveFiles.Turns

namespace LiveFiles.Session.Locks

inductive Command where
  | reserve (name : String) (path : Path)
  /-- a task waits for the lock with a reserved turn -/
  | acquire (name : String)
  | dropTurn (name : String)
  | dropGuard (name : String)
  | abort (name : String)
  /-- a task runs an operation alone at a path; if it is `held`, until it is told to finish -/
  | withLock (name : String) (path : Path) (held : Bool)
  | finish (name : String)
  | waitIdle (name : String) (path : Path)
  | isIdle (path : Path)

inductive Phase where
  | acquiring (name : String) (turn : Turn) (queued : Bool)
  | locking (name : String) (path : Path) (word : Option Nat) (turn : Option Turn)
  /-- `word` is what a held operation waits to be told -/
  | inside (name : String) (turn : Turn) (word : Option Nat)
  | draining (name : String) (path : Path) (turn : Option Turn)

structure World where
  turns : Turns := {}
  /-- turns reserved and not taken up -/
  reserved : Table String Turn := .empty
  /-- turns that hold their lock on behalf of nobody's task -/
  guards : Table String Turn := .empty
  /-- tasks by name -/
  acquiring : Table String TaskId := .empty
  running : Table String TaskId := .empty
  nextWord : Nat := 1
  /-- words not given yet, with the tasks that they are for -/
  untold : Table String (Nat × TaskId) := .empty
  told : List Nat := []
  tasks : Tasks Phase := {}
  log : List String := []
  acquired : List String := []
  done : List String := []

def Phase.awaitsTurn (id : TurnId) : Phase → Bool
  | .acquiring _ turn _ => turn.id = id
  | .locking _ _ _ turn => turn.any (·.id = id)
  | .draining _ _ turn => turn.any (·.id = id)
  | .inside .. => false

def Phase.awaitsWord (word : Nat) : Phase → Bool
  | .inside _ _ w => w = some word
  | _ => false

namespace World

def say (w : World) (line : String) : World := { w with log := w.log ++ [line] }

def giveBack (w : World) (turn : Turn) : World :=
  let (turns, next) := w.turns.giveBack turn
  match next with
  | some id => { w with turns, tasks := w.tasks.wake (·.awaitsTurn id) }
  | none => { w with turns }

def giveBackIf (w : World) : Option Turn → World
  | some t => w.giveBack t
  | none => w

def reserve (w : World) (p : Path) : Turn × World :=
  let (turn, turns) := w.turns.reserve p.key
  (turn, { w with turns })

def queueUp (w : World) (turn : Turn) : World := { w with turns := w.turns.queueUp turn }

def finish (w : World) (name : String) : World := { w with done := w.done ++ [name] }

/-- one section of a task -/
def advance (w : World) : Phase → World × Section Phase Unit
  | .acquiring name turn false => (w.queueUp turn, .go (.acquiring name turn true))
  | .acquiring name turn true =>
    if w.turns.holds turn then
      let before := w.guards.get? name
      ({ w with guards := w.guards.insert name turn, acquired := w.acquired ++ [name] }.giveBackIf before, .ended ())
    else (w, .wait (.acquiring name turn true))
  | .locking name p word none =>
    let (turn, w) := w.reserve p
    (w.queueUp turn, .go (.locking name p word (some turn)))
  | .locking name p word (some turn) =>
    if w.turns.holds turn then (w.say ("enter " ++ name), .go (.inside name turn word))
    else (w, .wait (.locking name p word (some turn)))
  | .inside name turn word =>
    if word.any fun n => !w.told.contains n then (w, .wait (.inside name turn word))
    else ((((w.say ("leave " ++ name)).giveBack turn).say ("returned " ++ name)).finish name, .ended ())
  | .draining name p none =>
    if w.turns.isIdle p.key then (w.finish name, .ended ())
    else
      let (turn, w) := w.reserve p
      (w.queueUp turn, .go (.draining name p (some turn)))
  | .draining name p (some turn) =>
    if w.turns.holds turn then (w.giveBack turn, .go (.draining name p none))
    else (w, .wait (.draining name p (some turn)))

/-- what a cancelled task lets go of -/
def drop (w : World) : Phase → World
  | .acquiring _ turn _ => w.giveBack turn
  | .locking name _ _ turn => (w.giveBackIf turn).finish name
  | .inside name turn _ => (w.giveBack turn).finish name
  | .draining name _ turn => (w.giveBackIf turn).finish name

end World

instance : Machine World Phase where
  tasks w := w.tasks
  setTasks w tasks := { w with tasks }
  advance w _ p := w.advance p
  drop w _ p := w.drop p

namespace World

def spawn (w : World) (p : Phase) : TaskId × World :=
  let (id, tasks) := w.tasks.spawn p
  (id, { w with tasks })

/-- a task of this name that has not ended -/
def liveTask? (w : World) (names : Table String TaskId) (name : String) : Option TaskId :=
  (names.get? name).filter w.tasks.isLive

def cancel (w : World) (id : TaskId) : World := { w with tasks := w.tasks.cancel id }

/-- the immediate effect of a command, and what it returns, if anything -/
def command (w : World) : Command → World × Option Bool
  | .reserve name p =>
    let (turn, w) := w.reserve p
    let before := w.reserved.get? name
    ({ w with reserved := w.reserved.insert name turn }.giveBackIf before, none)
  | .acquire name =>
    match w.reserved.get? name with
    | none => (w, some false)
    | some turn =>
      let (id, w) := { w with reserved := w.reserved.erase name }.spawn (.acquiring name turn false)
      ({ w with acquiring := w.acquiring.insert name id }, none)
  | .dropTurn name =>
    match w.reserved.get? name with
    | none => (w, some false)
    | some turn => ({ w with reserved := w.reserved.erase name }.giveBack turn, some true)
  | .dropGuard name =>
    match w.guards.get? name with
    | none => (w, some false)
    | some turn => ({ w with guards := w.guards.erase name }.giveBack turn, some true)
  | .abort name =>
    match w.liveTask? w.acquiring name with
    | some id => (w.cancel id, some true)
    | none =>
      match w.liveTask? w.running name with
      | some id => (w.cancel id, some true)
      | none => (w, some false)
  | .withLock name p held =>
    let word := if held then some w.nextWord else none
    let (id, w) := { w with nextWord := w.nextWord + 1 }.spawn (.locking name p word none)
    let untold := match word with
      | some word => w.untold.insert name (word, id)
      | none => w.untold
    ({ w with running := w.running.insert name id, untold }, none)
  | .finish name =>
    match w.untold.get? name with
    | none => (w, some false)
    | some (word, id) =>
      ({ w with untold := w.untold.erase name, told := word :: w.told,
                tasks := w.tasks.wake (·.awaitsWord word) }, some (w.tasks.isLive id))
  | .waitIdle name p =>
    let (id, w) := w.spawn (.draining name p none)
    ({ w with running := w.running.insert name id }, none)
  | .isIdle p => (w, some (w.turns.isIdle p.key))

end World

structure Report where
  reply : Option Bool
  /-- turns that came to hold their lock -/
  acquired : List String
  /-- operations and waits that ended or were cancelled -/
  done : List String
  log : List String
  active : Nat
  deriving DecidableEq, Repr

def ordered (names : List String) : List String := names.mergeSort (fun a b => decide (a ≤ b))

/-- one command, then everything that follows from it -/
def step (w : World) (c : Command) : World × Report :=
  let (w, reply) := w.command c
  let w := Machine.settle w
  ({ w with log := [], acquired := [], done := [] },
    ⟨reply, ordered w.acquired, ordered w.done, w.log, w.turns.activePaths⟩)

def run (w : World) : List Command → List Report
  | [] => []
  | c :: cs =>
    let (w, r) := step w c
    r :: run w cs

end LiveFiles.Session.Locks
