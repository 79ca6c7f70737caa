/-! Where programs print: bytes are kept in the order in which they are written, up to a limit if there
is one. A write past the limit fails, and the part of it that fits is kept. -/

namespace Offside

structure Sink where
  limit : Option Nat
  bytes : List UInt8
  deriving DecidableEq, Repr

namespace Sink

def unlimited : Sink := ⟨none, []⟩

def ofLimit (limit : Option Nat) : Sink := ⟨limit, []⟩

def utf8 (text : String) : List UInt8 := text.toUTF8.data.toList

def accepted (sink : Sink) (data : List UInt8) : List UInt8 :=
  match sink.limit with
  | some limit => data.take (limit - sink.bytes.length)
  | none => data

def write (sink : Sink) (data : List UInt8) : Bool × Sink :=
  let kept := sink.accepted data
  (kept.length == data.length, { sink with bytes := sink.bytes ++ kept })

def writeLine (sink : Sink) (text : String) : Bool × Sink :=
  match sink.write (utf8 text) with
  | (true, after) => after.write [0x0A]
  | (false, after) => (false, after)

end Sink

end Offside
