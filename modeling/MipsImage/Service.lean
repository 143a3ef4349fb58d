import MipsImage.Batch
import MipsImage.JsonValue

/-!
# The service

The assembler behind HTTP. A request asks for one source to be assembled, for several files at once
or for an image to be downloaded; a reply is a status with a body. A handler gets the JSON value of
the request's body, or none where the body is no such value. Whatever it cannot answer, for the
shape of the body or for what cannot be converted, is an error of the server.
-/
set_option autoImplicit false

namespace MipsImage.Service

inductive Reply where
  | text (content : String)
  | json (status : Nat) (content : JsonValue)
  /-- An image and the header that names it. -/
  | download (image : Bytes) (header : Text)

def Reply.status : Reply → Nat
  | text _ | download _ _ => 200
  | json status _ => status

/-- The workers for the files of one request. -/
def batchWorkers : Workers := .atMost 4

/-! ## Content of replies -/

def errorContent (message : String) : JsonValue :=
  .ofMembers [("errors", .array [.ofMembers [("message", .ofString message)]])]

def missingAssembly : Reply := .json 400 (errorContent "Missing 'assembly' key in request.")

def missingFiles : Reply :=
  .json 400
    (errorContent "Missing/invalid 'files' key (must map file names to source).")

/-- An error of the server in the middle of some activity. -/
def internalError (activity : String) : Reply :=
  .json 500 (errorContent ("Internal server error during " ++ activity))

def diagnosticContent (d : Diagnostic JsonValue) : JsonValue :=
  .ofMembers [("file", d.file.getD .null), ("line", (d.line.map .integer).getD .null),
    ("message", .string d.message)]

def nameDiagnostic (d : Diagnostic Text) : Diagnostic JsonValue :=
  { d with file := d.file.map .string }

def symbolsContent (symbols : SymbolTable) : JsonValue :=
  .object (symbols.map fun (name, address) => (name, .integer address))

def reportContent (report : Report JsonValue) : JsonValue :=
  .ofMembers [("hex", .ofString report.image.toHex),
    ("symbol_table", symbolsContent report.symbols),
    ("errors", .array (report.errors.map diagnosticContent)),
    ("warnings", .array (report.warnings.map diagnosticContent))]

def verdictContent (v : Verdict) : JsonValue :=
  let ifAssembled (content : Bytes → JsonValue) : JsonValue := (v.image.map content).getD .null
  .ofMembers [("file", .string v.file),
    ("output", ifAssembled fun _ => .string (outputName v.file)),
    ("hex", ifAssembled fun image => .ofString image.toHex),
    ("errors", .array (v.errors.map (diagnosticContent ∘ nameDiagnostic))),
    ("warnings", .array (v.warnings.map (diagnosticContent ∘ nameDiagnostic)))]

/-! ## One source -/

/-- What a body says that asks for one source to be assembled. -/
inductive SourceBody where
  /-- It says nothing of a source. -/
  | missing
  /-- It says something that is no source. -/
  | unusable
  /-- A source, and the name of its file if there is one. -/
  | source (text : Text) (file : Option JsonValue)

/-- A list and a text may name the source without holding it. -/
def SourceBody.ofBody : Option JsonValue → SourceBody
  | none => missing
  | some body =>
    if body.isEmpty then missing
    else match body with
      | .object members =>
        match members.lookup "assembly".toText with
        | none => missing
        | some (.string text) => source text (members.lookup "file_name".toText)
        | some _ => unusable
      | .array items =>
        let named := items.any fun item => match item with
          | .string text => text = "assembly".toText
          | _ => false
        if named then unusable else missing
      | .string text => if Text.occursIn "assembly".toText text then unusable else missing
      | _ => unusable

/-- The name under which a source is reported: the given one, unless that is null. -/
def reportedName (given : Option JsonValue) (otherwise : String) : Option JsonValue :=
  match given with
  | none => some (.ofString otherwise)
  | some .null => none
  | some name => some name

def reportOn (limit : Option Int) (text : Text) (name : Option JsonValue) :
    Except Unconvertible (Report JsonValue) :=
  (Assembly.ofLines limit (SourceLine.ofSource text)).report name

def assembleReply (limit : Option Int) (body : Option JsonValue) : Reply :=
  match SourceBody.ofBody body with
  | .missing => missingAssembly
  | .unusable => internalError "assembly"
  | .source text file =>
    match reportOn limit text (reportedName file "<input>") with
    | .ok report => .json 200 (reportContent report)
    | .error _ => internalError "assembly"

/-- A source that does not assemble is reported; only a text names the file of an image. For some
names there is no header. -/
def exportReply (header? : Text → Option Text) (limit : Option Int) (body : Option JsonValue) :
    Reply :=
  match SourceBody.ofBody body with
  | .missing => missingAssembly
  | .unusable => internalError "export"
  | .source text file =>
    let name := reportedName file "program.asm"
    match reportOn limit text name with
    | .error _ => internalError "export"
    | .ok report =>
      if report.errors ≠ [] then .json 400 (reportContent report)
      else match name with
        | some (.string name) =>
          match header? (outputName name) with
          | some header => .download report.image header
          | none => internalError "export"
        | _ => internalError "export"

/-! ## Several files -/

/-- The jobs for named sources, if each source is a text. -/
def jobs? : List (Text × JsonValue) → Option (List Job)
  | [] => some []
  | (name, .string source) :: rest => (jobs? rest).map (⟨name, SourceLine.ofSource source⟩ :: ·)
  | _ :: _ => none

/-- The verdicts on all files of a body, sorted by name. -/
def batchReply (limit : Option Int) (body : Option JsonValue) : Reply :=
  match body with
  | none => missingFiles
  | some body =>
    if body.isEmpty then missingFiles
    else match body with
      | .object members =>
        match members.lookup "files".toText with
        | some (.object files) =>
          let sorted := files.mergeSort fun a b => Text.atMost a.1 b.1
          match (jobs? sorted).map (assembleAll batchWorkers limit) with
          | some (.ok verdicts) =>
            .json 200 (.ofMembers [("results", .array (verdicts.map verdictContent))])
          | _ => internalError "batch assembly"
        | _ => missingFiles
      | _ => internalError "batch assembly"

/-! ## Endpoints -/

inductive Endpoint where
  | greeting
  | ping
  | assemble
  | batch
  | imageFile
  deriving DecidableEq, Repr

namespace Endpoint

/-- The reply to a request with this body. -/
def reply (header? : Text → Option Text) (limit : Option Int) (body : Option JsonValue) :
    Endpoint → Reply
  | greeting => .text "MIPS Assembler Backend is running!"
  | ping => .json 200 (.ofMembers [("message", .ofString "pong")])
  | assemble => assembleReply limit body
  | batch => batchReply limit body
  | imageFile => exportReply header? limit body

end Endpoint

end MipsImage.Service
