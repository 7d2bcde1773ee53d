import Plectrum.Instrument.Code
import Plectrum.Text.Decimal

/-!
# Ticks

A tick holds all commands of one instant.  Ticks are written one to a line: the
time in milliseconds, and the code of each command after a space.
-/

namespace Plectrum

structure Tick where
  time : Int
  commands : List Command
  deriving DecidableEq

namespace Tick

def line (t : Tick) : List Char :=
  Text.Decimal.ofInt t.time ++ t.commands.flatMap (fun c => ' ' :: c.code)

def render (ticks : List Tick) : List Char :=
  ticks.flatMap (fun t => t.line ++ ['\n'])

end Tick
end Plectrum
