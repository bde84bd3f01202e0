import Workforce.Pool.Submission

/-
  Raising and lowering the parallelism limit on behalf of a worker. A worker contributes at most
  the ceiling of the pool; raises beyond that are remembered as overflow and taken back first.
-/

namespace Workforce.Pool

variable {τ : Type}

/-- Raises the limit by one for worker `w`, or counts an overflow at the cap. -/
def raise (p : Pool τ) (w : Nat) : Pool τ :=
  match p.worker? w with
  | none => p
  | some x =>
    if p.config.max ≤ x.contribution then
      p.modifyWorker w fun x => { x with overflow := x.overflow + 1 }
    else
      ({ p with limit := p.limit + 1 }.modifyWorker w fun x =>
        { x with contribution := x.contribution + 1 }).ensureCapacity

/-- Takes back one raise for worker `w`: an overflow if there is one. -/
def lower (p : Pool τ) (w : Nat) : Pool τ :=
  match p.worker? w with
  | none => p
  | some x =>
    if 0 < x.overflow then
      p.modifyWorker w fun x => { x with overflow := x.overflow - 1 }
    else
      { p with limit := p.limit - 1 }.modifyWorker w fun x =>
        { x with contribution := x.contribution - 1 }

end Workforce.Pool
