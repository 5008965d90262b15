import PcmConversion.Settings.Basic
import PcmConversion.Text.Quoted
import PcmConversion.Toml.Reader

/-!
# Settings from a document

Settings are a record of five fields.  In a document each is written under its key; keys that are missing
take their defaults.  `readDocument` and `readFile` read settings with any reader of documents,
`ofDocument` and `ofFile` with the standard one.
-/

namespace PcmConversion

/-- The text for a name that is no resample method. -/
def ResampleMethod.unknownMessage (name : String) : String :=
  s!"unknown resample method {Quoted.encode name}"

namespace BackendChoice

/-- Every choice. -/
def all : List BackendChoice :=
  [.general, .lowLatency]

/-- The name of a choice in a document. -/
def name : BackendChoice → String
  | general => "general"
  | lowLatency => "low_latency"

end BackendChoice

namespace Settings

/-- One of the five settings. -/
inductive Key where
  | enableResample | resampleMethod | resampleBackend | lowLatencyQuality | chunkFrames
deriving DecidableEq

namespace Key

/-- Every setting. -/
def all : List Key :=
  [.enableResample, .resampleMethod, .resampleBackend, .lowLatencyQuality, .chunkFrames]

theorem mem_all (key : Key) : key ∈ all := by
  cases key <;> decide

/-- The key in a document. -/
def name : Key → String
  | enableResample => "enable_resample"
  | resampleMethod => "resample_method"
  | resampleBackend => "resample_backend"
  | lowLatencyQuality => "low_latency_quality"
  | chunkFrames => "chunk_frames"

/-- The type of a setting. -/
def Carrier : Key → Type
  | enableResample => Bool
  | resampleMethod => ResampleMethod
  | resampleBackend => BackendChoice
  | lowLatencyQuality => UInt32
  | chunkFrames => UInt64

/-- How a setting is written.  A method is a text, and not every text is the name of one. -/
def form : (key : Key) → Toml.Form key.Carrier
  | enableResample => Toml.Form.boolean
  | resampleMethod => { kind := .text, value? := ResampleMethod.ofName? }
  | resampleBackend => Toml.Form.choice BackendChoice.all BackendChoice.name
  | lowLatencyQuality => Toml.Form.word32
  | chunkFrames => Toml.Form.word64

end Key

/-- The value of a setting. -/
def get (s : Settings) : (key : Key) → key.Carrier
  | .enableResample => s.enableResample
  | .resampleMethod => s.method
  | .resampleBackend => s.backend
  | .lowLatencyQuality => s.lowLatencyQuality
  | .chunkFrames => s.chunkFrames

/-- Settings as records, with their defaults. -/
def recordType : Toml.RecordType where
  Field := Key
  fields := Key.all
  mem_fields := Key.mem_all
  name := Key.name
  Carrier := Key.Carrier
  form := Key.form
  standard := get {}

/-- The settings with given values. -/
def ofRecord (r : recordType.Record) : Settings where
  enableResample := r .enableResample
  method := r .resampleMethod
  backend := r .resampleBackend
  lowLatencyQuality := r .lowLatencyQuality
  chunkFrames := r .chunkFrames

/-- The settings in a document, where they can be read. -/
def read? (D : Toml.DocumentReader) (document : String) : Option Settings :=
  (D.read? recordType document).map ofRecord

end Settings

/-- Why settings could not be read. -/
inductive SettingsError where
  /-- The document does not hold settings. -/
  | malformed
  /-- The file holds no text. -/
  | unreadableFile (path : String)
  /-- The text of the file does not hold settings. -/
  | malformedFile (path : String)
deriving DecidableEq

/-- The text shown for an error. -/
def SettingsError.message : SettingsError → String
  | malformed => "parse conversion config"
  | unreadableFile path => s!"read config {Quoted.encode path}"
  | malformedFile path => s!"parse config {Quoted.encode path}"

namespace Settings

/-- The settings in a document, as a reader reads it. -/
def readDocument (D : Toml.DocumentReader) (document : String) : Except SettingsError Settings :=
  match read? D document with
  | some s => .ok s
  | none => .error .malformed

/-- The settings in a file, given its path and, where it can be read, its bytes. -/
def readFile (D : Toml.DocumentReader) (path : String) (bytes : Option ByteArray) :
    Except SettingsError Settings :=
  match bytes.bind String.fromUTF8? with
  | none => .error (.unreadableFile path)
  | some document =>
    match read? D document with
    | some s => .ok s
    | none => .error (.malformedFile path)

/-- The settings in a document. -/
def ofDocument (document : String) : Except SettingsError Settings :=
  readDocument Toml.reader document

/-- The settings in a file. -/
def ofFile (path : String) (bytes : Option ByteArray) : Except SettingsError Settings :=
  readFile Toml.reader path bytes

end Settings

end PcmConversion
