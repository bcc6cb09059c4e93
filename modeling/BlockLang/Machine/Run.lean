import BlockLang.Machine.Step

namespace BlockLang

structure Thread where
  current : Activation
  callers : List Activation := []

inductive Progress where
  | running (t : Thread)
  | finished (value : Word)

inductive Outcome where
  | value (w : Word)
  | fault (e : Fault)
  | unfinished (t : Thread)

namespace Thread

def advance (t : Thread) (image : Image) : Exec Progress := do
  match ← t.current.step image with
  | .next a => return .running { t with current := a }
  | .call routine args d caller => return .running ⟨← routine.enter args d, caller :: t.callers⟩
  | .ret =>
    let w ← t.current.routine.leave
    match t.callers with
    | [] => return .finished w
    | caller :: callers => return .running ⟨← caller.write w t.current.destination, callers⟩

def runFor (image : Image) : (fuel : Nat) → Thread → Machine → Outcome × Machine
  | 0, t, m => (.unfinished t, m)
  | fuel + 1, t, m =>
    match t.advance image m with
    | .ok (.running t) m => runFor image fuel t m
    | .ok (.finished w) m => (.value w, m)
    | .error e m => (.fault e, m)

end Thread

namespace Image

def start (image : Image) : Exec Thread :=
  match image.routines[image.entry]? with
  | none => throw (.notAFunction image.entry)
  | some r => do
    if wordSize < r.frame.params then throw (.entryParameters image.entry)
    let m ← get
    Machine.store (m.sp - r.frame.oldFp) (.ofInt m.fp)
    return { current := ← r.enter [0] .discard }

def run (image : Image) (fuel : Nat) (m : Machine) : Outcome × Machine :=
  match image.start m with
  | .ok t m => t.runFor image fuel m
  | .error e m => (.fault e, m)

end Image

end BlockLang
