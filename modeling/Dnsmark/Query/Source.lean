import Mathlib.Algebra.Ring.Nat
import Mathlib.Data.List.Forall2
import Dnsmark.Common.Text
import Dnsmark.Query.Wire

/-!
# Where the queries come from

`FileQuerySource` of `src/query/file.rs` and `RandomQuerySource` of `src/query/random.rs`.  A query file
has a name and a record type on each line; whatever is there is taken, and only a file without any line
to take is refused.  A random query puts 128 random bits in front of a base domain.

Nothing on this way bounds a name.  `length_buildWireTemplate` says how long its template is: the labels
with their length octets, and 17 octets around them.
-/

namespace Dnsmark

structure QueryEntry where
  name : String
  qtype : UInt16
deriving DecidableEq, Repr

/-- `parse_record_type` of `src/dns/mod.rs`. -/
def parseRecordType (s : Text) : UInt16 :=
  let upper := s.map Char.toUpper
  match String.ofList upper with
  | "A" => 1
  | "NS" => 2
  | "CNAME" => 5
  | "SOA" => 6
  | "PTR" => 12
  | "MX" => 15
  | "TXT" => 16
  | "AAAA" => 28
  | "SRV" => 33
  | "NAPTR" => 35
  | "DS" => 43
  | "RRSIG" => 46
  | "NSEC" => 47
  | "DNSKEY" => 48
  | "NSEC3" => 50
  | "TLSA" => 52
  | "CAA" => 257
  | "ANY" => 255
  | _ => UInt16.ofNat ((Text.fromStrRadix 10 (2 ^ 16) upper).getD 1)

/-- The entry of a line: its first word is the name, its second the record type. -/
def QueryEntry.ofLine (line : Text) : QueryEntry :=
  let parts := Text.splitWhitespace line
  { name := String.ofList (parts[0]?.getD ("example.com".toList))
    qtype := parseRecordType (parts[1]?.getD ['A']) }

/-- The lines that are taken: the others are empty or comments. -/
def queryLines (content : Text) : List Text :=
  content.lines.filter fun l => l ≠ [] ∧ l.head? ≠ some '#'

/-- A loaded file has at least one entry. -/
structure FileQuerySource where
  entries : List QueryEntry
  entries_ne_nil : entries ≠ []

/-- `FileQuerySource::load`, with the text of the file unless it could not be read. -/
def FileQuerySource.load (path : String) (content : Option Text) : Except String FileQuerySource :=
  match content with
  | none => .error ("read query file " ++ path)
  | some content =>
    if h : (queryLines content).map QueryEntry.ofLine ≠ [] then .ok ⟨_, h⟩
    else .error ("query file " ++ path ++ " contains no valid entries")

structure RandomQuerySource where
  baseDomain : String
  qtype : UInt16

namespace RandomQuerySource

/-- `RandomQuerySource::new`. -/
def new (baseDomain : String) (qtype : UInt16) : RandomQuerySource := ⟨trimEndDots baseDomain, qtype⟩

/-- `{:032x}` of a `u128`. -/
def hex032 (id : BitVec 128) : Text :=
  (List.range 32).map fun i => Nat.digitChar ((id >>> (4 * (31 - i))).toNat % 16)

/-- `{:032x}.{base_domain}`. -/
def name (source : RandomQuerySource) (id : BitVec 128) : String :=
  String.ofList (hex032 id ++ '.' :: source.baseDomain.toList)

end RandomQuerySource

/-- The sources a run can be given on the command line. -/
inductive QuerySource where
  | file (source : FileQuerySource)
  | random (source : RandomQuerySource)

/-- `all_wire_pairs`; a random source samples 4096 names. -/
def QuerySource.allWirePairs (rand : Fin 4096 → BitVec 128) : QuerySource → List (String × UInt16)
  | file source => source.entries.map fun e => (e.name, e.qtype)
  | random source => List.ofFn fun i => (source.name (rand i), source.qtype)

/-- The arguments that choose a source. -/
inductive QueryArgs where
  | file (path : String) (content : Option Text)
  | random (domain : String) (qtype : UInt16)

/-- The source of a run. -/
def QueryArgs.source : QueryArgs → Except String QuerySource
  | file path content => (FileQuerySource.load path content).map .file
  | random domain qtype => .ok (.random (.new domain qtype))

/-- A file with a line to take is accepted. -/
theorem FileQuerySource.load_eq_ok (path : String) {content : Text} (h : queryLines content ≠ []) :
    ∃ source, load path (some content) = .ok source ∧
      source.entries = (queryLines content).map QueryEntry.ofLine := by
  have hne : (queryLines content).map QueryEntry.ofLine ≠ [] := mt List.map_eq_nil_iff.mp h
  refine ⟨⟨_, hne⟩, ?_, rfl⟩
  simp only [load]
  rw [dif_pos hne]

/-- Its lines are then the queries of the run. -/
theorem QueryArgs.source_file (path : String) {content : Text} (h : queryLines content ≠ []) :
    ∃ source, (QueryArgs.file path (some content)).source = .ok (.file source) ∧
      source.entries = (queryLines content).map QueryEntry.ofLine := by
  obtain ⟨source, hload, hentries⟩ := FileQuerySource.load_eq_ok path h
  refine ⟨source, ?_, hentries⟩
  rw [QueryArgs.source, hload]
  rfl

/-- A file without one is refused. -/
theorem FileQuerySource.load_eq_error (path : String) {content : Text} (h : queryLines content = []) :
    load path (some content) = .error ("query file " ++ path ++ " contains no valid entries") := by
  simp only [load]
  rw [dif_neg]
  rw [h, List.map_nil]
  exact not_not_intro rfl

theorem FileQuerySource.exists_error_iff {path : String} {content : Text} :
    (∃ msg, load path (some content) = .error msg) ↔ queryLines content = [] := by
  constructor
  · rintro ⟨msg, herror⟩
    by_contra hne
    obtain ⟨source, hload, -⟩ := load_eq_ok path hne
    rw [hload] at herror
    cases herror
  · exact fun hnil => ⟨_, load_eq_error path hnil⟩

/-- What is loaded are the queries of the lines that are taken. -/
theorem FileQuerySource.entries_of_load {path : String} {content : Text} {source : FileQuerySource}
    (h : load path (some content) = .ok source) :
    source.entries = (queryLines content).map QueryEntry.ofLine := by
  have hne : queryLines content ≠ [] := by
    intro hnil
    rw [load_eq_error path hnil] at h
    cases h
  obtain ⟨source', hload, hentries⟩ := load_eq_ok path hne
  rw [← Except.ok.inj (hload.symm.trans h), hentries]

/-- No source is without queries. -/
theorem QuerySource.allWirePairs_ne_nil (rand : Fin 4096 → BitVec 128) (source : QuerySource) :
    source.allWirePairs rand ≠ [] := by
  cases source with
  | file source => exact mt List.map_eq_nil_iff.mp source.entries_ne_nil
  | random source =>
    apply List.ne_nil_of_length_pos
    rw [allWirePairs, List.length_ofFn]
    decide

/-! ## The queries that a file states

`load` takes every line that is neither empty nor a comment, and a line without a name gets the name
`example.com`.  A line of spaces or tabs has no name but is not empty, so it adds a query that nobody
wrote.
-/

/-- The line has something other than whitespace on it. -/
def HasWord (line : Text) : Prop := ∃ c ∈ line, Text.isWhitespace c = false

/-- The line states a query. -/
def IsQueryLine (line : Text) : Prop := HasWord line ∧ line.head? ≠ some '#'

/-- The entry is the query of the line: its first word is the name and its second one the record type,
which is A without a second word. -/
def IsQueryOf (line : Text) (entry : QueryEntry) : Prop :=
  ∃ name words, Text.splitWhitespace line = name :: words ∧ entry.name = String.ofList name ∧
    entry.qtype = parseRecordType (words.head?.getD ['A'])

-- the search through the line, not one through all characters
instance decidableHasWord (line : Text) : Decidable (HasWord line) :=
  List.decidableBEx (fun c => Text.isWhitespace c = false) line

instance decidableIsQueryLine (line : Text) : Decidable (IsQueryLine line) :=
  inferInstanceAs (Decidable (_ ∧ _))

/-- The entries are the queries of the file, line by line. -/
def ReadsFile (content : Text) (entries : List QueryEntry) : Prop :=
  List.Forall₂ IsQueryOf (content.lines.filter IsQueryLine) entries

/-- The file has no line of whitespace. -/
def NoBlankLine (content : Text) : Prop := ∀ line ∈ content.lines, line ≠ [] → HasWord line

theorem HasWord.ne_nil {line : Text} (h : HasWord line) : line ≠ [] := by
  obtain ⟨c, hc, -⟩ := h
  exact List.ne_nil_of_mem hc

/-- A line with a word on it gives its own query. -/
theorem HasWord.isQueryOf {line : Text} (h : HasWord line) : IsQueryOf line (.ofLine line) := by
  obtain ⟨c, hc, hword⟩ := h
  have hne : Text.splitWhitespace line ≠ [] := by
    rw [Ne, Text.splitWhitespace_eq_nil_iff]
    intro hall
    rw [hall c hc] at hword
    cases hword
  obtain ⟨name, words, hwords⟩ := List.exists_cons_of_ne_nil hne
  refine ⟨name, words, hwords, ?_, ?_⟩
  · simp only [QueryEntry.ofLine, hwords]
    rfl
  · simp only [QueryEntry.ofLine, hwords, List.getElem?_cons_succ, List.head?_eq_getElem?]

/-- The lines that are taken, apart from the blank ones. -/
theorem filter_queryLines (content : Text) :
    (queryLines content).filter HasWord = content.lines.filter IsQueryLine := by
  unfold queryLines
  rw [List.filter_filter]
  apply List.filter_congr
  intro line _
  rw [← Bool.decide_and]
  apply decide_eq_decide.mpr
  constructor
  · rintro ⟨hword, -, hcomment⟩
    exact ⟨hword, hcomment⟩
  · rintro ⟨hword, hcomment⟩
    exact ⟨hword, hword.ne_nil, hcomment⟩

/-- A blank line is taken. -/
theorem exists_blank_of_not {content : Text} (h : ¬ NoBlankLine content) :
    ∃ line ∈ queryLines content, ¬ HasWord line := by
  unfold NoBlankLine at h
  push Not at h
  obtain ⟨line, hline, hne, hblank⟩ := h
  refine ⟨line, List.mem_filter.mpr ⟨hline, ?_⟩, hblank⟩
  -- a comment has its `#` on it
  have hcomment : line.head? ≠ some '#' := fun hhead =>
    hblank ⟨'#', List.mem_of_head? hhead, by decide⟩
  simp [hne, hcomment]

/-- Without blank lines, what is taken is what is stated. -/
theorem queryLines_of_noBlankLine {content : Text} (h : NoBlankLine content) :
    queryLines content = content.lines.filter IsQueryLine := by
  rw [← filter_queryLines, List.filter_eq_self.mpr]
  intro line hline
  obtain ⟨hmem, htaken⟩ := List.mem_filter.mp hline
  exact decide_eq_true (h line hmem (of_decide_eq_true htaken).1)

theorem readsFile_of_noBlankLine {content : Text} (h : NoBlankLine content) :
    ReadsFile content ((queryLines content).map .ofLine) := by
  rw [ReadsFile, ← queryLines_of_noBlankLine h, List.forall₂_map_right_iff, List.forall₂_same]
  intro line hline
  rw [queryLines_of_noBlankLine h] at hline
  exact (of_decide_eq_true (List.mem_filter.mp hline).2).1.isQueryOf

/-- The file is read as it says exactly when it has no line of whitespace: then the entries are the
queries of the lines that state one, in order and with no other, and the file is refused if and only if
there is no such line. -/
theorem load_reads_file_iff (path : String) (content : Text) :
    ((∀ source, FileQuerySource.load path (some content) = .ok source →
        ReadsFile content source.entries) ∧
      ((∃ msg, FileQuerySource.load path (some content) = .error msg) ↔
        ∀ line ∈ content.lines, ¬ IsQueryLine line)) ↔ NoBlankLine content := by
  constructor
  · rintro ⟨hreads, -⟩
    by_contra hblank
    -- one entry too many
    obtain ⟨line, hline, hword⟩ := exists_blank_of_not hblank
    obtain ⟨source, hload, hentries⟩ :=
      FileQuerySource.load_eq_ok path (List.ne_nil_of_mem hline)
    have hlength := (hreads source hload).length_eq
    rw [hentries, List.length_map, ← filter_queryLines] at hlength
    have hlt : ((queryLines content).filter HasWord).length < (queryLines content).length :=
      List.length_filter_lt_length_iff_exists.mpr ⟨line, hline, by simpa using hword⟩
    omega
  · intro hblank
    have hlines := queryLines_of_noBlankLine hblank
    refine ⟨fun source hload => ?_, ?_⟩
    · rw [FileQuerySource.entries_of_load hload]
      exact readsFile_of_noBlankLine hblank
    · rw [FileQuerySource.exists_error_iff, hlines, List.filter_eq_nil_iff]
      simp only [decide_eq_true_iff]

/-- A comment, an empty line, an indented line and one without a record type. -/
def mixedFile : Text := "# names\r\n\r\n  one.test aaaa\r\ntwo.test\n".toList

/-- Two lines of it state a query, and those two are read. -/
theorem load_reads_mixedFile :
    ∃ source, FileQuerySource.load "queries.txt" (some mixedFile) = .ok source ∧
      source.entries = [⟨"one.test", 28⟩, ⟨"two.test", 1⟩] ∧ ReadsFile mixedFile source.entries := by
  have hblank : NoBlankLine mixedFile := by
    unfold NoBlankLine
    decide +kernel
  obtain ⟨source, hload, hentries⟩ :=
    FileQuerySource.load_eq_ok "queries.txt" (show queryLines mixedFile ≠ [] by decide +kernel)
  refine ⟨source, hload, hentries.trans (by decide +kernel), ?_⟩
  exact ((load_reads_file_iff "queries.txt" mixedFile).mpr hblank).1 source hload

/-- A file of one space states no query, and is read as one for `example.com`. -/
theorem load_reads_blank_line :
    ∃ source, FileQuerySource.load "queries.txt" (some [' ', '\n']) = .ok source ∧
      source.entries = [⟨"example.com", 1⟩] ∧ (∀ line ∈ Text.lines [' ', '\n'], ¬ IsQueryLine line) ∧
      ¬ ReadsFile [' ', '\n'] source.entries := by
  obtain ⟨source, hload, hentries⟩ :=
    FileQuerySource.load_eq_ok "queries.txt" (show queryLines [' ', '\n'] ≠ [] by decide +kernel)
  have hone : source.entries = [⟨"example.com", 1⟩] := hentries.trans (by decide +kernel)
  refine ⟨source, hload, hone, by decide +kernel, ?_⟩
  intro hreads
  have hlength := hreads.length_eq
  rw [hone] at hlength
  exact absurd hlength (by decide +kernel)

/-! ## The length of a template -/

/-- The octets of a name's labels, each with its length octet. -/
def labelOctets (name : String) : ℕ := ((nameParts name).map fun part => (asBytes part).length + 1).sum

theorem length_buildWireTemplate (name : String) (qtype : UInt16) :
    (buildWireTemplate name qtype).length = 17 + labelOctets name := by
  have hlabels : ∀ parts : List String, ((parts.map asBytes).flatMap QueryMessage.encodeLabel).length
      = (parts.map fun part => (asBytes part).length + 1).sum := by
    intro parts
    induction parts with
    | nil => rfl
    | cons part parts ih =>
      simp only [List.map_cons, List.flatMap_cons, List.length_append, List.sum_cons, ih]
      simp [QueryMessage.encodeLabel]
  simp only [buildWireTemplate, pushName_eq, QueryMessage.encodeName, List.length_append, hlabels,
    labelOctets]
  simp [u16ToBeBytes]
  omega

theorem labelOctets_trimEndDots (name : String) : labelOctets (trimEndDots name) = labelOctets name := by
  rw [labelOctets, nameParts_trimEndDots, labelOctets]

/-- The octets of a string, character by character. -/
theorem length_asBytes_ofList (cs : Text) :
    (asBytes (String.ofList cs)).length = (cs.map Char.utf8Size).sum := by
  have hbytes : asBytes (String.ofList cs) = cs.flatMap String.utf8EncodeChar := by
    simp [asBytes, List.utf8Encode]
  rw [hbytes, List.length_flatMap]
  simp

/-- The octets of a name of one label. -/
theorem labelOctets_ofList {cs : Text} (hdot : '.' ∉ cs) (hne : cs ≠ []) :
    labelOctets (String.ofList cs) = (cs.map Char.utf8Size).sum + 1 := by
  have hparts : nameParts (String.ofList cs) = [String.ofList cs] := by
    rw [nameParts_eq, String.toList_ofList, List.splitOn_eq_singleton hdot]
    simp [hne]
  rw [labelOctets, hparts, List.map_singleton, List.sum_singleton, length_asBytes_ofList]

theorem digitChar_of_lt : ∀ n < 16, (Nat.digitChar n).utf8Size = 1 ∧ Nat.digitChar n ≠ '.' := by
  decide

/-- The first label of a random name has 32 octets. -/
theorem RandomQuerySource.labelOctets_name (source : RandomQuerySource) (id : BitVec 128) :
    labelOctets (source.name id) = 33 + labelOctets source.baseDomain := by
  have hdigit : ∀ c ∈ hex032 id, c.utf8Size = 1 ∧ c ≠ '.' := by
    intro c hc
    obtain ⟨i, -, rfl⟩ := List.mem_map.mp hc
    exact digitChar_of_lt _ (Nat.mod_lt _ (by decide))
  have hdot : '.' ∉ hex032 id := fun hmem => (hdigit _ hmem).2 rfl
  have hne : hex032 id ≠ [] := List.ne_nil_of_length_pos (by simp [hex032])
  have hparts : nameParts (source.name id)
      = String.ofList (hex032 id) :: nameParts source.baseDomain := by
    rw [nameParts_eq, nameParts_eq, name, String.toList_ofList, List.splitOn_append_cons_self,
      List.splitOn_eq_singleton hdot]
    simp [hne]
  have hsize : ((hex032 id).map Char.utf8Size).sum = 32 := by
    rw [List.map_eq_replicate_iff.mpr fun c hc => (hdigit c hc).1]
    simp [hex032]
  rw [labelOctets, hparts, List.map_cons, List.sum_cons, length_asBytes_ofList, hsize, labelOctets]

end Dnsmark
