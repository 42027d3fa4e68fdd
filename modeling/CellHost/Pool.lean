import CellHost.Machine.World

/-!
# Several contexts in one host

A host can keep any number of contexts of the same world: contexts with a region of their own, and
snapshots, which work on the region of the context they were taken from. The pool hands a context out
together with the world as that context sees it, and takes both back.

## Main definitions

* `Pool.add`, `Pool.snapshot` : the two ways of getting another context.
* `Pool.get?`, `Pool.put` : borrowing a context and giving it back.
-/

namespace CellHost

/-- Contexts by number, each with the number of its region. The region of `world` is of no account:
it stands for the region of whichever context is handed out. -/
structure Pool (σ : Type) where
  contexts : Array (Context × Nat) := #[]
  regions : Array Region := #[]
  world : World σ

namespace Pool

variable {σ : Type}

/-- Add a context with a region of its own. -/
def add (p : Pool σ) (c : Context) (region : Region) : Pool σ :=
  { p with contexts := p.contexts.push (c, p.regions.size), regions := p.regions.push region }

/-- Add a snapshot of a context. -/
def snapshot (p : Pool σ) (n : Nat) : Pool σ :=
  match p.contexts[n]? with
  | some (c, region) => { p with contexts := p.contexts.push (c.snapshot, region) }
  | none => p

/-- Whether two contexts work on the same memory. -/
def sharesMemory (p : Pool σ) (m n : Nat) : Bool :=
  match p.contexts[m]?, p.contexts[n]? with
  | some (_, r), some (_, s) => r == s
  | _, _ => false

/-- A context with the world as it sees it. -/
def get? (p : Pool σ) (n : Nat) : Option (Context × World σ) := do
  let (c, r) ← p.contexts[n]?
  let region ← p.regions[r]?
  return (c, { p.world with region })

/-- Take a context and its world back. -/
def put (p : Pool σ) (n : Nat) (c : Context) (w : World σ) : Pool σ :=
  match p.contexts[n]? with
  | some (_, r) =>
    { contexts := p.contexts.setIfInBounds n (c, r)
      regions := p.regions.setIfInBounds r w.region
      world := w }
  | none => p

end Pool

end CellHost
