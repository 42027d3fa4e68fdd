/-!
# The console

What a program writes, in order, each piece with the time the host had waited when it was written.
The stamps let an outer layer replay the output at its pace; the text does not depend on them.
-/

namespace CellHost

/-- Pieces of output with their stamps in nanoseconds, oldest first. -/
structure Console where
  writes : Array (Nat × String) := #[]
  deriving Repr, Inhabited

namespace Console

/-- One more piece of output. -/
def write (c : Console) (stamp : Nat) (text : String) : Console :=
  ⟨c.writes.push (stamp, text)⟩

/-- All that was written. -/
def text (c : Console) : String := c.writes.foldl (fun all piece => all ++ piece.2) ""

end Console

end CellHost
