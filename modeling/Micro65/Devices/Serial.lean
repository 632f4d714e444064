set_option autoImplicit false

/-!
Serial links: a byte written to one address is transmitted, and a read of another takes the next byte
that has been received.
-/

namespace Micro65

structure Serial where
  tx : UInt16
  rx : UInt16
  /-- Bytes received and not yet read. -/
  input : List UInt8 := []
  /-- Without a line nothing is transmitted. -/
  connected : Bool := true
  /-- Bytes transmitted so far, the latest first. -/
  sent : List UInt8 := []
  deriving DecidableEq, Repr

namespace Serial

/-- What is read when nothing has been received. -/
def nothing : UInt8 := 0xFF

def receive (link : Serial) (bytes : List UInt8) : Serial := { link with input := link.input ++ bytes }

def read (link : Serial) (address : UInt16) : Option UInt8 × Serial :=
  if address = link.rx then
    match link.input with
    | [] => (some nothing, link)
    | byte :: rest => (some byte, { link with input := rest })
  else (none, link)

def write (link : Serial) (address : UInt16) (data : UInt8) : Serial × List UInt8 :=
  if address = link.tx ∧ link.connected then ({ link with sent := data :: link.sent }, [data])
  else (link, [])

/-- Bytes transmitted so far, in order. -/
def transmitted (link : Serial) : List UInt8 := link.sent.reverse

end Serial
end Micro65
