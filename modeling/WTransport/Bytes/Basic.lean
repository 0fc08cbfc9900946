import WTransport.VarInt

/-!
# Shared pieces of `bytes.rs`

The error `EndOfBuffer`, panics, and sequences of operations on a reader or a writer. A panic is an
`Except.error` carrying the message of the `expect` that raised it.
-/

namespace WTransport

/-- `EndOfBuffer`: not enough bytes, or not enough room. -/
structure EndOfBuffer where
  deriving DecidableEq, Repr

/-- `Option::expect`: the value, or a panic with the message. -/
def expect {α : Type} (o : Option α) (msg : String) : Except String α :=
  match o with
  | some a => .ok a
  | none => .error msg

/-- `Result::expect`: the value, or a panic with the message. -/
def expectOk {ε α : Type} (r : Except ε α) (msg : String) : Except String α :=
  match r with
  | .ok a => .ok a
  | .error _ => .error msg

/-- A sequence of operations on a reader or a writer, with every result in order. -/
def runOps {Op Out S : Type} (apply : Op → S → Except String (Out × S)) :
    List Op → S → Except String (List Out × S)
  | [], s => pure ([], s)
  | op :: ops, s => do
    let (out, s) ← apply op s
    let (outs, s) ← runOps apply ops s
    pure (out :: outs, s)

@[simp] theorem runOps_nil {Op Out S : Type} (apply : Op → S → Except String (Out × S)) (s : S) :
    runOps apply [] s = .ok ([], s) := rfl

theorem runOps_cons {Op Out S : Type} {apply : Op → S → Except String (Out × S)} {op : Op}
    {ops : List Op} {s s' : S} {out : Out} (h : apply op s = .ok (out, s')) :
    runOps apply (op :: ops) s = (runOps apply ops s').map fun p => (out :: p.1, p.2) := by
  simp only [runOps, h, bind, Except.bind, pure, Except.pure, Except.map]

end WTransport
