/-
Channels from senders to one receiver, without bound. A receiver that is closed gets nothing new but can still be
read; one that is dropped takes what it had not read with it. Reading a drained channel ends once no more can come.
-/

namespace LiveFiles

structure Channel (α : Type) where
  /-- sent and not read yet, oldest first -/
  buffer : List α := []
  /-- takes what is sent -/
  isOpen : Bool := true
  /-- the receiving end exists -/
  receiver : Bool := true
  /-- the sending end exists -/
  sender : Bool := true
  deriving Repr

namespace Channel

variable {α : Type}

/-- what an attempt to read tells -/
inductive Reading (α : Type) where
  | message (a : α)
  /-- nothing there, and nothing can come -/
  | ended
  /-- nothing there yet -/
  | nothing

def send (c : Channel α) (a : α) : Channel α := if c.isOpen then { c with buffer := c.buffer ++ [a] } else c

/-- the next message, and the channel without it -/
def read (c : Channel α) : Reading α × Channel α :=
  match c.buffer with
  | a :: rest => (.message a, { c with buffer := rest })
  | [] => (if c.isOpen && c.sender then .nothing else .ended, c)

/-- all that is there -/
def drain (c : Channel α) : List α × Channel α := (c.buffer, { c with buffer := [] })

def close (c : Channel α) : Channel α := { c with isOpen := false }

def dropReceiver (c : Channel α) : Channel α := { c with buffer := [], isOpen := false, receiver := false }

def dropSender (c : Channel α) : Channel α := { c with sender := false }

end Channel

end LiveFiles
