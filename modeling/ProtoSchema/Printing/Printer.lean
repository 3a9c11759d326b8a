import ProtoSchema.Printing.Config
import ProtoSchema.Printing.Declarations

/-!
# Printing

`printTo` prints a node to a sink and reports what the sink brought it to a halt by; `Node.print`
and `File.print` collect the printed form as text. They read the bytes back leniently, so that they
need no proof that what was written is text.
-/

namespace ProtoSchema

/-- Prints a node to a sink. An absent node prints nothing. -/
def printTo (config : Config) (node : Option Node) (sink : Sink) : Outcome Sink :=
  match node with
  | none => .done sink
  | some node => (node.layout.write config.indent.toNat (.base sink)).map Writer.sink

/-- The bytes that a node prints to a sink that takes everything. -/
def rendering (config : Config) (node : Option Node) : List UInt8 :=
  (printTo config node {}).state.written.toList

/-- The printed form of a node under the default configuration. -/
def Node.print (node : Node) : String :=
  Text.decodeLossy (rendering {} (some node))

/-- The printed form of a file under the default configuration. -/
def File.print (file : File) : String :=
  (Node.file file).print

end ProtoSchema
