/-!
# Journal messages

While a score is compiled, each stage has something to tell.  Messages carry the
amount of detail from which on they are of interest.
-/

namespace Plectrum

inductive Detail where
  | info
  | debug
  | trace
  deriving DecidableEq

namespace Detail

def rank : Detail -> Nat
  | info => 0
  | debug => 1
  | trace => 2

def wantedAt (d threshold : Detail) : Bool :=
  d.rank <= threshold.rank

def label : Detail -> String
  | info => "INFO"
  | debug => "DEBUG"
  | trace => "TRACE"

end Detail

structure Message where
  detail : Detail
  text : String
  deriving DecidableEq

namespace Message

def info (text : String) : Message := ⟨.info, text⟩

def debug (text : String) : Message := ⟨.debug, text⟩

def trace (text : String) : Message := ⟨.trace, text⟩

def wanted (threshold : Detail) (messages : List Message) : List Message :=
  messages.filter (fun m => m.detail.wantedAt threshold)

end Message
end Plectrum
