import PcmConversion.Proofs.Toml.Lines
import PcmConversion.Proofs.Toml.Records
import PcmConversion.Settings.Document

/-!
# Settings sheets

A sheet is a settings document of the plainest kind: some of the five settings in any order, each on a
line of its own.  It means what it says (`readDocument_sheet`): reading it gives the values that are
written and the defaults for the rest, in whatever order the lines stand, and is refused only where a
name is no method or a number is out of range.

That holds with every reader that reads documents of pairs and fills records, and so with the standard
one.  A sheet is a document of pairs, the value of a line stands for that of its setting just if the line
says so (`Line.stands_iff`), and so the settings read from a sheet are those that it describes
(`Sheet.readDocument_eq_ok_iff`).
-/

namespace PcmConversion

namespace Settings

/-! ## What is written -/

/-- A setting and the value that is written for it; for the method that is any word. -/
inductive Line where
  | enableResample (on : Bool)
  | resampleMethod (name : String) (letters : ∀ c ∈ name.toList, c.isAlpha = true)
  | resampleBackend (choice : BackendChoice)
  | lowLatencyQuality (quality : Nat)
  | chunkFrames (frames : Nat)

namespace Line

/-- The setting that a line is about. -/
def key : Line → Key
  | enableResample _ => .enableResample
  | resampleMethod _ _ => .resampleMethod
  | resampleBackend _ => .resampleBackend
  | lowLatencyQuality _ => .lowLatencyQuality
  | chunkFrames _ => .chunkFrames

/-- The value as it is written: a truth value, a name in quotes or a decimal number. -/
def literal : Line → Toml.Literal
  | enableResample on => .boolean on
  | resampleMethod name _ => .text name
  | resampleBackend choice => .text choice.name
  | lowLatencyQuality n | chunkFrames n => .natural n

/-- The line as a pair of a document. -/
def pair (line : Line) : Toml.Pair where
  key := line.key.name
  literal := line.literal

/-- The value is one that its setting can have. -/
def Acceptable : Line → Prop
  | enableResample _ | resampleBackend _ => True
  | resampleMethod name _ =>
    ∃ m : ResampleMethod, ResampleMethod.foldCase m.name = ResampleMethod.foldCase name
  | lowLatencyQuality n => n < UInt32.size
  | chunkFrames n => n < UInt64.size

/-- The settings have the value that is written. -/
def Sets (s : Settings) : Line → Prop
  | enableResample on => s.enableResample = on
  | resampleMethod name _ =>
    ResampleMethod.foldCase s.method.name = ResampleMethod.foldCase name
  | resampleBackend choice => s.backend = choice
  | lowLatencyQuality n => s.lowLatencyQuality.toNat = n
  | chunkFrames n => s.chunkFrames.toNat = n

end Line

end Settings

/-! ## Names -/

namespace ResampleMethod

theorem mem_methods (m : ResampleMethod) : m ∈ all := by
  cases m <;> decide

theorem foldCase_name_injective {m m' : ResampleMethod} (h : foldCase m.name = foldCase m'.name) :
    m = m' :=
  have hdistinct : (all.map fun m => foldCase m.name).Nodup := by decide +kernel
  List.inj_on_of_nodup_map hdistinct (mem_methods m) (mem_methods m') h

/-- A name is read as the method that is called so, but for the case of its letters. -/
theorem ofName?_eq_some_iff {name : String} {m : ResampleMethod} :
    ofName? name = some m ↔ foldCase m.name = foldCase name := by
  constructor
  · intro h
    simpa using List.find?_some h
  · intro h
    have hsome : (ofName? name).isSome := List.find?_isSome.2 ⟨m, mem_methods m, by simpa using h⟩
    obtain ⟨m', hm'⟩ := Option.isSome_iff_exists.1 hsome
    have hname : foldCase m'.name = foldCase name := by simpa using List.find?_some hm'
    rw [hm', foldCase_name_injective (hname.trans h.symm)]

/-- The canonical names are words. -/
theorem name_letters (m : ResampleMethod) : ∀ c ∈ m.name.toList, c.isAlpha = true := by
  refine List.all_eq_true.1 ?_
  cases m <;> decide +kernel

end ResampleMethod

namespace BackendChoice

theorem isKeyChar_name (choice : BackendChoice) :
    ∀ c ∈ choice.name.toList, Toml.isKeyChar c = true := by
  refine List.all_eq_true.1 ?_
  cases choice <;> decide +kernel

theorem mem_choices (choice : BackendChoice) : choice ∈ all := by
  cases choice <;> decide

theorem names_distinct : (all.map name).Nodup := by
  decide

end BackendChoice

namespace Settings

namespace Key

theorem name_injective : Function.Injective Key.name := by
  intro key key' h
  cases key <;> cases key' <;> first | rfl | exact absurd h (by decide)

theorem name_ne_nil (key : Key) : key.name.toList ≠ [] := by
  cases key <;> decide +kernel

theorem isKeyChar_name (key : Key) : ∀ c ∈ key.name.toList, Toml.isKeyChar c = true := by
  refine List.all_eq_true.1 ?_
  cases key <;> decide +kernel

end Key

/-! ## Sheets as documents of pairs -/

theorem Line.sound_pair (line : Line) : line.pair.Sound where
  key_ne := line.key.name_ne_nil
  keyChars := line.key.isKeyChar_name
  ordinary := by
    cases line with
    | resampleMethod name letters =>
        exact fun c hc => Toml.isOrdinary_of_isKeyChar (Toml.isKeyChar_of_isAlpha (letters c hc))
    | resampleBackend choice =>
        exact fun c hc => Toml.isOrdinary_of_isKeyChar (choice.isKeyChar_name c hc)
    | enableResample | lowLatencyQuality | chunkFrames => trivial

/-- Some of the settings, each on one line, and how the lines end. -/
structure Sheet where
  lines : List Line
  distinct : (lines.map Line.key).Nodup
  lineEnd : Toml.LineEnd
  closed : Bool

namespace Sheet

/-- The settings that are written. -/
def keys (sheet : Sheet) : List Key :=
  sheet.lines.map Line.key

theorem distinct_pairs (sheet : Sheet) :
    ((sheet.lines.map Line.pair).map Toml.Pair.key).Nodup := by
  have hnames := sheet.distinct.map Key.name_injective
  rw [List.map_map] at hnames ⊢
  exact hnames

/-- The pairs of the document. -/
def document (sheet : Sheet) : Toml.PairDocument where
  pairs := sheet.lines.map Line.pair
  sound := List.forall_mem_map.2 fun line _ => line.sound_pair
  distinct := sheet.distinct_pairs
  lineEnd := sheet.lineEnd
  closed := sheet.closed

/-- The document. -/
def text (sheet : Sheet) : String :=
  sheet.document.text

/-- Settings that have all values of a sheet, and the default where it has none. -/
def Describes (sheet : Sheet) (s : Settings) : Prop :=
  (∀ line ∈ sheet.lines, line.Sets s) ∧ ∀ key, key ∉ sheet.keys → s.get key = get {} key

/-- The entry of a line is found under its key. -/
theorem get?_line {sheet : Sheet} {line : Line} (hline : line ∈ sheet.lines) :
    sheet.document.entries.get? line.key.name = some line.literal.value :=
  Toml.lookup_entry sheet.distinct_pairs (List.mem_map_of_mem hline)

/-- Under a key without a line there is no entry. -/
theorem get?_eq_none {sheet : Sheet} {key : Key} (hkey : key ∉ sheet.keys) :
    sheet.document.entries.get? key.name = none := by
  refine Toml.lookup_entry_eq_none fun hname => hkey ?_
  rw [document, List.map_map] at hname
  obtain ⟨line, hline, hsame⟩ := List.mem_map.1 hname
  exact List.mem_map.2 ⟨line, hline, Key.name_injective hsame⟩

end Sheet

/-! ## Lines as settings -/

section Reading

variable {D : Toml.DocumentReader}

namespace Line

variable {line : Line} {s s' : Settings}

/-- The value of a line stands for that of its setting just where the line says so. -/
theorem stands_iff (hrecords : D.FillsRecords) (line : Line) (s : Settings) :
    D.value? line.key.form line.literal.value = some (s.get line.key) ↔ line.Sets s := by
  cases line with
  | enableResample on =>
      exact (Eq.congr_left (hrecords.value?_boolean on)).trans (Option.some_inj.trans eq_comm)
  | resampleMethod name =>
      exact (Eq.congr_left (hrecords.value?_text _ name)).trans ResampleMethod.ofName?_eq_some_iff
  | resampleBackend choice =>
      have hread := hrecords.value?_choice BackendChoice.names_distinct choice.mem_choices
      exact (Eq.congr_left hread).trans (Option.some_inj.trans eq_comm)
  | lowLatencyQuality n => exact hrecords.value?_word32 n _
  | chunkFrames n => exact hrecords.value?_word64 n _

/-- What a line says can be said of some settings only where it is acceptable. -/
theorem Sets.acceptable (h : line.Sets s) : line.Acceptable := by
  cases line with
  | enableResample on => trivial
  | resampleMethod name => exact ⟨s.method, h⟩
  | resampleBackend choice => trivial
  | lowLatencyQuality n => exact h ▸ s.lowLatencyQuality.toNat_lt
  | chunkFrames n => exact h ▸ s.chunkFrames.toNat_lt

/-- An acceptable number fits 64 bits. -/
theorem Acceptable.fits (h : line.Acceptable) : line.literal.Fits := by
  cases line with
  | enableResample | resampleMethod | resampleBackend => trivial
  | lowLatencyQuality n => exact Nat.lt_trans h (by decide)
  | chunkFrames n => exact h

theorem Sets.congr (h : line.Sets s) (hsame : s'.get line.key = s.get line.key) :
    line.Sets s' := by
  cases line with
  | enableResample on => exact hsame.trans h
  | resampleMethod name =>
      have hmethod : s'.method = s.method := hsame
      rwa [Sets, hmethod]
  | resampleBackend choice => exact hsame.trans h
  | lowLatencyQuality n => exact (congrArg UInt32.toNat hsame).trans h
  | chunkFrames n => exact (congrArg UInt64.toNat hsame).trans h

/-- The settings with what the line says, where it is acceptable. -/
def write (s : Settings) : Line → Settings
  | enableResample on => { s with enableResample := on }
  | resampleMethod name _ => { s with method := (ResampleMethod.ofName? name).getD s.method }
  | resampleBackend choice => { s with backend := choice }
  | lowLatencyQuality n => { s with lowLatencyQuality := .ofNat n }
  | chunkFrames n => { s with chunkFrames := .ofNat n }

theorem sets_write (h : line.Acceptable) (s : Settings) : line.Sets (line.write s) := by
  cases line with
  | enableResample on => rfl
  | resampleMethod name =>
      obtain ⟨m, hm⟩ := h
      rw [write, ResampleMethod.ofName?_eq_some_iff.2 hm]
      exact hm
  | resampleBackend choice => rfl
  | lowLatencyQuality n => exact UInt32.toNat_ofNat_of_lt' h
  | chunkFrames n => exact UInt64.toNat_ofNat_of_lt' h

theorem get_write {key : Key} (h : key ≠ line.key) (s : Settings) :
    (line.write s).get key = s.get key := by
  cases line <;> cases key <;> first | rfl | exact absurd rfl h

/-- The same line with the canonical name of a method. -/
def withMethod (m : ResampleMethod) : Line → Line
  | resampleMethod _ _ => .resampleMethod m.name m.name_letters
  | line => line

@[simp] theorem key_withMethod (m : ResampleMethod) (line : Line) :
    (line.withMethod m).key = line.key := by
  cases line <;> rfl

/-- Settings still have what a line says when it names their own method. -/
theorem Sets.withMethod (h : line.Sets s) : (line.withMethod s.method).Sets s := by
  cases line with
  | resampleMethod name => exact rfl
  | enableResample | resampleBackend | lowLatencyQuality | chunkFrames => exact h

end Line

/-! ## Sheets as settings -/

theorem get_ofRecord (r : recordType.Record) (key : Key) : (ofRecord r).get key = r key := by
  cases key <;> rfl

theorem ofRecord_get (s : Settings) : ofRecord s.get = s := rfl

theorem read?_eq_some_iff {document : String} {s : Settings} :
    read? D document = some s ↔ D.read? recordType document = some s.get := by
  rw [read?, Option.map_eq_some_iff]
  constructor
  · rintro ⟨r, hr, rfl⟩
    rw [hr]
    exact congrArg some (funext fun key => (get_ofRecord r key).symm)
  · exact fun h => ⟨_, h, ofRecord_get s⟩

theorem readDocument_eq_ok {document : String} {s : Settings} :
    readDocument D document = .ok s ↔ read? D document = some s := by
  unfold readDocument
  cases read? D document <;> simp

namespace Sheet

variable {sheet : Sheet} {s : Settings}

/-- The settings read from a sheet are those that it describes. -/
theorem readDocument_eq_ok_iff (hpairs : D.ReadsPairs) (hrecords : D.FillsRecords) (sheet : Sheet)
    (s : Settings) : readDocument D sheet.text = .ok s ↔ sheet.Describes s := by
  rw [readDocument_eq_ok, read?_eq_some_iff, Toml.DocumentReader.read?]
  cases htable : D.table? sheet.text with
  | none =>
      -- Some number is beyond the reader, and beyond all settings as well.
      refine ⟨nofun, fun h => ?_⟩
      have haccepted := hpairs.accepts sheet.document <|
        List.forall_mem_map.2 fun line hline => (h.1 line hline).acceptable.fits
      rw [← text, htable] at haccepted
      cases haccepted
  | some table =>
      have hentries := hpairs.lossless sheet.document table htable
      refine (hrecords.record recordType Key.name_injective table s.get).trans
        ⟨fun h => ⟨fun line hline => ?_, fun key hkey => ?_⟩, fun h key => ?_⟩
      · have hentry := (hentries line.key.name).trans (get?_line hline)
        exact (Line.stands_iff hrecords line s).1 ((h line.key).1 _ hentry)
      · exact (h key).2 ((hentries key.name).trans (get?_eq_none hkey))
      · by_cases hkey : key ∈ sheet.keys
        · obtain ⟨line, hline, rfl⟩ := List.mem_map.1 hkey
          have hentry := (hentries line.key.name).trans (get?_line hline)
          refine ⟨fun v hv => ?_, fun hv => nomatch hentry.symm.trans hv⟩
          obtain rfl := Option.some.inj (hentry.symm.trans hv)
          exact (Line.stands_iff hrecords line s).2 (h.1 line hline)
        · have hentry := (hentries key.name).trans (get?_eq_none hkey)
          exact ⟨fun v hv => (nomatch hentry.symm.trans hv), fun _ => h.2 key hkey⟩

/-- Acceptable lines with different keys can all be written into the default settings. -/
theorem exists_describes (hacceptable : ∀ line ∈ sheet.lines, line.Acceptable) :
    ∃ s, sheet.Describes s := by
  obtain ⟨lines, hdistinct, e, closed⟩ := sheet
  suffices h : ∃ s : Settings, (∀ line ∈ lines, line.Sets s) ∧
      ∀ key, key ∉ lines.map Line.key → s.get key = get {} key from h
  induction lines with
  | nil => exact ⟨{}, fun line hline => (nomatch hline), fun key _ => rfl⟩
  | cons line lines ih =>
      rw [List.map_cons, List.nodup_cons] at hdistinct
      obtain ⟨s, hsets, hdefaults⟩ :=
        ih hdistinct.2 fun line hline => hacceptable line (List.mem_cons_of_mem _ hline)
      refine ⟨line.write s, List.forall_mem_cons.2 ⟨?_, fun other hother => ?_⟩, fun key hkey => ?_⟩
      · exact Line.sets_write (hacceptable line List.mem_cons_self) s
      · have hkey : other.key ≠ line.key := fun h => hdistinct.1 (List.mem_map.2 ⟨other, hother, h⟩)
        exact (hsets other hother).congr (Line.get_write hkey s)
      · rw [List.map_cons, List.mem_cons, not_or] at hkey
        exact (Line.get_write hkey.1 s).trans (hdefaults key hkey.2)

theorem keys_withMethod (m : ResampleMethod) (lines : List Line) :
    (lines.map (Line.withMethod m)).map Line.key = lines.map Line.key := by
  rw [List.map_map]
  exact List.map_congr_left fun line _ => Line.key_withMethod m line

/-- The same sheet with the canonical name of a method. -/
def withMethod (m : ResampleMethod) (sheet : Sheet) : Sheet where
  lines := sheet.lines.map (Line.withMethod m)
  distinct := by
    rw [keys_withMethod]
    exact sheet.distinct
  lineEnd := sheet.lineEnd
  closed := sheet.closed

/-- Settings are still described where their own method goes by its canonical name. -/
theorem Describes.withMethod (h : sheet.Describes s) : (sheet.withMethod s.method).Describes s := by
  refine ⟨List.forall_mem_map.2 fun line hline => (h.1 line hline).withMethod, fun key hkey => ?_⟩
  have hkeys : (sheet.withMethod s.method).keys = sheet.keys := keys_withMethod s.method sheet.lines
  exact h.2 key (hkeys ▸ hkey)

/-- What a sheet describes does not depend on the order of its lines. -/
theorem Describes.perm {sheet' : Sheet} (hperm : sheet'.lines.Perm sheet.lines)
    (h : sheet.Describes s) : sheet'.Describes s := by
  refine ⟨fun line hline => h.1 line (hperm.mem_iff.1 hline), fun key hkey => h.2 key ?_⟩
  exact fun hmem => hkey ((hperm.map Line.key).mem_iff.2 hmem)

end Sheet

/-- Documents from which the same settings are read give the same result: the error says no more. -/
theorem readDocument_congr {document document' : String}
    (h : ∀ s, readDocument D document' = .ok s ↔ readDocument D document = .ok s) :
    readDocument D document' = readDocument D document := by
  have hread : read? D document' = read? D document :=
    Option.ext fun s => readDocument_eq_ok.symm.trans ((h s).trans readDocument_eq_ok)
  rw [readDocument, hread, ← readDocument]

/-- **A sheet means what it says.**  With a reader that reads documents of pairs and fills records,
settings are read from a sheet just where each name is one of the methods, but for the case of its
letters, and each number fits its type.  They are the written values and the defaults elsewhere; the
same are read where the method goes by its canonical name, and from the same lines in any other order. -/
theorem readDocument_sheet (hpairs : D.ReadsPairs) (hrecords : D.FillsRecords) (sheet : Sheet) :
    ((∃ s, readDocument D sheet.text = .ok s) ↔ ∀ line ∈ sheet.lines, line.Acceptable) ∧
    (∀ s, readDocument D sheet.text = .ok s →
      (∀ line ∈ sheet.lines, line.Sets s) ∧
      (∀ key, key ∉ sheet.keys → s.get key = get {} key) ∧
      readDocument D (sheet.withMethod s.method).text = .ok s) ∧
    ∀ sheet' : Sheet, sheet'.lines.Perm sheet.lines →
      readDocument D sheet'.text = readDocument D sheet.text := by
  have hiff := Sheet.readDocument_eq_ok_iff hpairs hrecords
  refine ⟨⟨?_, fun h => ?_⟩, fun s hs => ?_, fun sheet' hperm => ?_⟩
  · rintro ⟨s, hs⟩ line hline
    exact (((hiff sheet s).1 hs).1 line hline).acceptable
  · obtain ⟨s, hs⟩ := Sheet.exists_describes h
    exact ⟨s, (hiff sheet s).2 hs⟩
  · have hdescribes := (hiff sheet s).1 hs
    exact ⟨hdescribes.1, hdescribes.2, (hiff _ s).2 hdescribes.withMethod⟩
  · refine readDocument_congr fun s => ?_
    rw [hiff, hiff]
    exact ⟨Sheet.Describes.perm hperm.symm, Sheet.Describes.perm hperm⟩

end Reading

/-- Four of the settings, the method in a mixture of cases. -/
def shouted : Sheet where
  lines := [.resampleBackend .lowLatency,
    .resampleMethod "sincbestQUALITY" (List.all_eq_true.1 (by decide +kernel)),
    .lowLatencyQuality 32, .enableResample false]
  distinct := by decide
  lineEnd := .lf
  closed := true

/-- The standard reader reads it as four values and one default, under the canonical name and backwards as
well. -/
theorem readDocument_sheet_shouted :
    let s : Settings := ⟨false, .sincBestQuality, .lowLatency, 32, 1024⟩
    shouted.text = "resample_backend = \"low_latency\"\nresample_method = \"sincbestQUALITY\"\n" ++
        "low_latency_quality = 32\nenable_resample = false\n" ∧
      readDocument Toml.reader shouted.text = .ok s ∧
      readDocument Toml.reader (shouted.withMethod .sincBestQuality).text = .ok s ∧
      ∀ sheet' : Sheet, sheet'.lines = shouted.lines.reverse →
        readDocument Toml.reader sheet'.text = .ok s := by
  intro s
  obtain ⟨hreads, hmeans, horder⟩ :=
    readDocument_sheet Toml.reader_readsPairs Toml.reader_fillsRecords shouted
  have hacceptable : ∀ line ∈ shouted.lines, line.Acceptable := by
    simp only [shouted, List.forall_mem_cons, Line.Acceptable]
    exact ⟨trivial, ⟨.sincBestQuality, by decide +kernel⟩, by decide, trivial, by simp⟩
  obtain ⟨read, hread⟩ := hreads.2 hacceptable
  obtain ⟨hsets, hdefaults, hcanonical⟩ := hmeans read hread
  have hsame : read = s := by
    simp only [shouted, List.forall_mem_cons, Line.Sets] at hsets
    obtain ⟨hbackend, hmethod, hquality, henable, -⟩ := hsets
    have hname : read.method = .sincBestQuality :=
      ResampleMethod.foldCase_name_injective (hmethod.trans (by decide +kernel))
    have hframes : read.chunkFrames = 1024 := hdefaults .chunkFrames (by decide)
    obtain ⟨on, m, choice, quality, frames⟩ := read
    simp only at hbackend hname henable hframes hquality
    have hword : quality = 32 := UInt32.toNat_inj.1 hquality
    rw [hbackend, hname, henable, hframes, hword]
  subst hsame
  exact ⟨by decide +kernel, hread, hcanonical, fun sheet' h =>
    (horder sheet' (h ▸ List.reverse_perm _)).trans hread⟩

end Settings

end PcmConversion
