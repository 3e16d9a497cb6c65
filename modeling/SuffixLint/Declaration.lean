import SuffixLint.Json.Record
import SuffixLint.Path
/-!
# Declarations

What is inspected: the name of a function or method, whether it is asynchronous, and where it was
found, as far as that is known.
-/

namespace SuffixLint

/-- One declared function or method. -/
structure Declaration where
  /-- The name, exactly as it was written. -/
  name : String
  isAsync : Bool
  file : Option Path := none
  line : Option UInt32 := none
  deriving DecidableEq, Repr

namespace Declaration

/-- Paths as documents: strings. -/
def pathCodec : Codec Path :=
  (Codec.stringAs "path string").imap Path.mk Path.text

/-- The fields of a declaration: the flag may also go by the name of the modifier, and the place may
be left out. -/
def fields :=
  Fields.cons ⟨"name", [], Codec.string, none, fun _ => false⟩ <|
  .cons ⟨"is_async", ["async"], Codec.bool, none, fun _ => false⟩ <|
  .cons ⟨"file", [], pathCodec.option, some none, Option.isNone⟩ <|
  .cons ⟨"line", [], Codec.word32.option, some none, Option.isNone⟩ .nil

/-- Declarations as records. -/
def codec : Codec Declaration :=
  (Codec.record "Declaration" fields).imap
    (fun (name, isAsync, file, line, _) => ⟨name, isAsync, file, line⟩)
    (fun d => (d.name, d.isAsync, d.file, d.line, ()))

end Declaration

end SuffixLint
