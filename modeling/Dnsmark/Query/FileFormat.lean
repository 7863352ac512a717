import Dnsmark.Query.Mix
import Dnsmark.Transport.QueryBuffers

/-!
# From a query file to the wire

A query file is given here by its lines: empty ones, comments, and lines that state a question.  It is
printed with any indentation, any gaps and either kind of line end, and a record type by its mnemonic in
any case, by its number, or not at all for type A.

The stages between the text and the octets of a query, with one result each:

* `parseRecordType_of_isTypeText` — the record type is read as it was written;
* `QuestionLine.ofLine_raw` — a line gives its question;
* `queryLines_printFile` — the lines that are taken are those of the questions;
* `Question.parts_name`, `Question.fits` — the labels of the name are those of the question, and fit;
* `Question.decode_buildQuery` — the message of the question is what a strict parser reads.
-/

namespace Dnsmark

/-! ## Record types -/

/-- The names `parse_record_type` knows. -/
def recordTypes : List (String × UInt16) :=
  [("A", 1), ("NS", 2), ("CNAME", 5), ("SOA", 6), ("PTR", 12), ("MX", 15), ("TXT", 16), ("AAAA", 28),
    ("SRV", 33), ("NAPTR", 35), ("DS", 43), ("RRSIG", 46), ("NSEC", 47), ("DNSKEY", 48), ("NSEC3", 50),
    ("TLSA", 52), ("CAA", 257), ("ANY", 255)]

/-- The text stands for the record type: its number, or its name in upper or lower case. -/
def IsTypeText (qtype : UInt16) (text : Text) : Prop :=
  text = Text.decimal qtype.toNat ∨
    ∃ known ∈ recordTypes, known.2 = qtype ∧ text.map Char.toUpper = known.1.toList

theorem toUpper_of_isDigit {c : Char} (h : c.isDigit = true) : c.toUpper = c := by
  have hdigit : c.val ≤ '9'.val := of_decide_eq_true (Bool.and_eq_true_iff.mp h).2
  refine dif_neg fun hlower => ?_
  exact absurd (UInt32.le_trans hlower.1 hdigit) (by decide)

theorem map_toUpper_decimal (n : ℕ) : (Text.decimal n).map Char.toUpper = Text.decimal n := by
  refine (List.map_congr_left fun c hc => ?_).trans (List.map_id _)
  exact toUpper_of_isDigit (Text.isDigit_of_mem_decimal hc)

/-- Upper and lower case are the same to it. -/
theorem parseRecordType_congr {s t : Text} (h : s.map Char.toUpper = t.map Char.toUpper) :
    parseRecordType s = parseRecordType t := by
  unfold parseRecordType
  rw [h]

theorem parseRecordType_known :
    ∀ known ∈ recordTypes, parseRecordType known.1.toList = known.2 ∧
      known.1.toList.map Char.toUpper = known.1.toList := by
  decide

theorem parseRecordType_decimal (qtype : UInt16) :
    parseRecordType (Text.decimal qtype.toNat) = qtype := by
  have hdigits : ∀ s, String.ofList (Text.decimal qtype.toNat) = s →
      s.toList.all Char.isDigit = true := by
    rintro s rfl
    rw [String.toList_ofList, List.all_eq_true]
    exact fun c hc => Text.isDigit_of_mem_decimal hc
  simp only [parseRecordType, map_toUpper_decimal]
  -- a number is none of the names
  split
  case h_19 =>
    rw [Text.fromStrRadix_decimal qtype.toNat_lt, Option.getD_some, UInt16.ofNat_toNat]
  all_goals exact absurd (hdigits _ ‹_›) (by decide)

theorem parseRecordType_of_isTypeText {qtype : UInt16} {text : Text} (h : IsTypeText qtype text) :
    parseRecordType text = qtype := by
  obtain rfl | ⟨known, hknown, rfl, hupper⟩ := h
  · exact parseRecordType_decimal qtype
  · obtain ⟨hparse, hname⟩ := parseRecordType_known known hknown
    rw [parseRecordType_congr (hupper.trans hname.symm), hparse]

/-- A record type is one word. -/
theorem IsTypeText.isWord {qtype : UInt16} {text : Text} (h : IsTypeText qtype text) :
    Text.IsWord text := by
  obtain rfl | ⟨known, hknown, -, hupper⟩ := h
  · exact Text.isWord_decimal _
  · have hall : ∀ known ∈ recordTypes, Text.IsWord known.1.toList := by decide
    have hword : Text.IsWord (text.map Char.toUpper) := hupper ▸ hall known hknown
    refine ⟨fun hnil => hword.1 (by rw [hnil]; rfl), fun c hc => ?_⟩
    by_contra hspace
    have hspace : Text.isWhitespace c = true := by simpa using hspace
    have := hword.2 _ (List.mem_map_of_mem hc)
    rw [Text.toUpper_of_isWhitespace hspace, hspace] at this
    cases this

/-! ## Questions -/

/-- Labels of a name that a line can state and that fits a DNS message. -/
structure IsName (labels : List Text) : Prop where
  ne_nil : labels ≠ []
  isWord : ∀ label ∈ labels, Text.IsWord label ∧ '.' ∉ label
  length_le : ∀ label ∈ labels, (asBytes (String.ofList label)).length ≤ 63
  octets_le : (labels.map fun label => (asBytes (String.ofList label)).length + 1).sum + 1 ≤ 255
  /-- The line would be a comment. -/
  head_ne : labels.flatten.head? ≠ some '#'

/-- A question as a file can state it. -/
structure Question where
  labels : List Text
  qtype : UInt16
  isName : IsName labels

namespace Question

variable (q : Question)

/-- The name, with dots between its labels. -/
def name : Text := ['.'].intercalate q.labels

/-- The query for it. -/
def message (id : UInt16) : QueryMessage :=
  ⟨id, 0x0100, q.labels.map fun label => asBytes (String.ofList label), q.qtype, 1⟩

/-- The entry of a source. -/
def entry : QueryEntry := ⟨String.ofList q.name, q.qtype⟩

theorem name_isWord : Text.IsWord q.name := by
  obtain ⟨label, labels, hlabels⟩ := List.exists_cons_of_ne_nil q.isName.ne_nil
  have hlabel := (q.isName.isWord label (hlabels ▸ List.mem_cons_self)).1
  constructor
  · rw [name, hlabels]
    cases labels with
    | nil => simpa using hlabel.1
    | cons next labels => simp [List.intercalate_cons_cons]
  · intro c hc
    obtain rfl | ⟨part, hpart, hc⟩ := Text.mem_intercalate hc
    · decide
    · exact (q.isName.isWord part hpart).1.2 c hc

/-- The name starts with its first label. -/
theorem head?_name : q.name.head? ≠ some '#' := by
  obtain ⟨label, labels, hlabels⟩ := List.exists_cons_of_ne_nil q.isName.ne_nil
  have hlabel := (q.isName.isWord label (hlabels ▸ List.mem_cons_self)).1
  obtain ⟨c, rest, rfl⟩ := List.exists_cons_of_ne_nil hlabel.1
  have hhead := q.isName.head_ne
  rw [hlabels] at hhead
  rw [name, hlabels]
  cases labels with
  | nil => simpa using hhead
  | cons next labels => simpa [List.intercalate_cons_cons] using hhead

/-- The parts of the name are the labels. -/
theorem parts_name : nameParts (String.ofList q.name) = q.labels.map String.ofList := by
  rw [nameParts_eq, String.toList_ofList, name,
    List.splitOn_intercalate '.' (fun label hlabel => (q.isName.isWord label hlabel).2) q.isName.ne_nil,
    List.filter_eq_self.mpr]
  intro label hlabel
  simpa using (q.isName.isWord label hlabel).1.1

theorem queryMessage_name (id : UInt16) :
    queryMessage id (String.ofList q.name) q.qtype = q.message id := by
  rw [queryMessage, q.parts_name, List.map_map]
  rfl

theorem labelOctets_name : labelOctets (String.ofList q.name) ≤ 254 := by
  have hle := q.isName.octets_le
  rw [labelOctets, q.parts_name, List.map_map]
  simp only [Function.comp_def]
  omega

theorem fits : FitsMessage (String.ofList q.name) := by
  constructor
  · rw [q.parts_name]
    exact List.forall_mem_map.mpr q.isName.length_le
  · -- the template is the name and 16 octets around it
    have htemplate := length_buildWireTemplate (String.ofList q.name) 1
    have hle := q.labelOctets_name
    simp only [buildWireTemplate, pushName_eq, List.length_append, u16ToBeBytes, List.length_cons,
      List.length_nil] at htemplate
    rw [pushName_eq, List.nil_append]
    omega

/-- A query for the question is read by a strict parser as what it is. -/
theorem decode_buildQuery (id : UInt16) :
    QueryMessage.decode (buildQuery id q.entry.name q.entry.qtype) = some (q.message id) := by
  rw [entry, buildQuery_eq, ← q.queryMessage_name id]
  exact (QueryMessage.decode_encode_iff _).mpr ((valid_queryMessage_iff _ _ _).mpr q.fits)

end Question

/-! ## Lines -/

/-- A line that states a question. -/
structure QuestionLine where
  question : Question
  indent : Text
  gap : Text
  typeText : Text
  trail : Text
  blank : ∀ b ∈ [indent, gap, trail], Text.IsBlank b ∧ '\n' ∉ b
  /-- The record type is written, or it is left out and A. -/
  typed : (gap ≠ [] ∧ IsTypeText question.qtype typeText) ∨ (typeText = [] ∧ question.qtype = 1)

/-- What a line of a query file can be. -/
inductive FileLine where
  | empty
  | comment (text : Text) (h : '\n' ∉ text)
  | question (line : QuestionLine)

namespace QuestionLine

variable (line : QuestionLine)

def text : Text :=
  line.indent ++ (line.question.name ++ (line.gap ++ (line.typeText ++ line.trail)))

theorem blank_indent : Text.IsBlank line.indent ∧ '\n' ∉ line.indent := line.blank _ (by simp)

theorem blank_gap : Text.IsBlank line.gap ∧ '\n' ∉ line.gap := line.blank _ (by simp)

theorem blank_trail : Text.IsBlank line.trail ∧ '\n' ∉ line.trail := line.blank _ (by simp)

/-- The words of the line. -/
theorem words_text :
    Text.splitWhitespace line.text =
      line.question.name :: if line.typeText = [] then [] else [line.typeText] := by
  have hname := line.question.name_isWord
  rw [text, Text.splitWhitespace_blank_append line.blank_indent.1]
  obtain ⟨hgap, htype⟩ | ⟨hnil, -⟩ := line.typed
  · rw [hname.splitWhitespace_append line.blank_gap.1 hgap,
      Text.splitWhitespace_append_blank _ line.blank_trail.1, htype.isWord.splitWhitespace_eq,
      if_neg htype.isWord.1]
  · rw [hnil, List.nil_append, if_pos rfl, Text.splitWhitespace_append_blank, hname.splitWhitespace_eq]
    exact List.forall_mem_append.mpr ⟨line.blank_gap.1, line.blank_trail.1⟩

/-- The line gives its question, whatever whitespace is stripped from its end. -/
theorem ofLine_of_words {s : Text} (h : Text.splitWhitespace s = Text.splitWhitespace line.text) :
    QueryEntry.ofLine s = line.question.entry := by
  rw [QueryEntry.ofLine, h, line.words_text, Question.entry]
  obtain ⟨-, htype⟩ | ⟨hnil, hqtype⟩ := line.typed
  · rw [if_neg htype.isWord.1]
    exact congrArg _ (parseRecordType_of_isTypeText htype)
  · rw [if_pos hnil, hqtype]
    rfl

theorem text_ne_nil : line.text ≠ [] := by
  simp [text, line.question.name_isWord.1]

/-- It is no comment. -/
theorem head?_text : line.text.head? ≠ some '#' := by
  rw [text]
  cases hindent : line.indent with
  | nil =>
    obtain ⟨c, rest, hname⟩ := List.exists_cons_of_ne_nil line.question.name_isWord.1
    have hhead := line.question.head?_name
    rw [hname] at hhead ⊢
    exact hhead
  | cons c rest =>
    rintro ⟨⟩
    exact absurd (line.blank_indent.1 '#' (hindent ▸ List.mem_cons_self)) (by decide)

theorem newline_notMem_text : '\n' ∉ line.text := by
  have hname : '\n' ∉ line.question.name := fun h =>
    absurd (line.question.name_isWord.2 _ h) (by decide)
  have htype : '\n' ∉ line.typeText := by
    intro h
    obtain ⟨-, htype⟩ | ⟨hnil, -⟩ := line.typed
    · exact absurd (htype.isWord.2 _ h) (by decide)
    · rw [hnil] at h
      cases h
  simp only [text, List.mem_append, not_or]
  exact ⟨line.blank_indent.2, hname, line.blank_gap.2, htype, line.blank_trail.2⟩

end QuestionLine

namespace FileLine

def text : FileLine → Text
  | empty => []
  | comment text _ => '#' :: text
  | question line => line.text

def question? : FileLine → Option Question
  | question line => some line.question
  | _ => none

theorem newline_notMem_text : (line : FileLine) → '\n' ∉ line.text
  | empty => List.not_mem_nil
  | comment _ h => List.not_mem_cons_of_ne_of_not_mem (by decide) h
  | question line => line.newline_notMem_text

end FileLine

/-- The text of a line up to its `\n`; with `crlf` it ends with a `\r`. -/
def printLine (line : FileLine × Bool) : Text := line.1.text ++ if line.2 then ['\r'] else []

/-- The text of a file. -/
def printFile (file : List (FileLine × Bool)) : Text := (file.map printLine).flatMap (· ++ ['\n'])

/-- The questions of a file, in order. -/
def questions (file : List (FileLine × Bool)) : List Question := file.filterMap fun line => line.1.question?

theorem newline_notMem_printLine (line : FileLine × Bool) : '\n' ∉ printLine line := by
  rw [printLine, List.mem_append, not_or]
  refine ⟨line.1.newline_notMem_text, ?_⟩
  cases line.2 <;> decide

/-- What `lines` makes of a printed line: a line that states a question gives it. -/
theorem printLine_taken {line : FileLine × Bool} {q : Question} (h : line.1.question? = some q) :
    (Text.stripLast '\r' (printLine line) ≠ [] ∧
      (Text.stripLast '\r' (printLine line)).head? ≠ some '#') ∧
      QueryEntry.ofLine (Text.stripLast '\r' (printLine line)) = q.entry := by
  obtain ⟨line, crlf⟩ := line
  cases line with
  | empty => cases h
  | comment => cases h
  | question line =>
    obtain rfl := Option.some.inj h
    have hend : Text.IsBlank (if crlf then ['\r'] else []) := by cases crlf <;> decide
    have hwords : Text.splitWhitespace (Text.stripLast '\r' (printLine (.question line, crlf)))
        = Text.splitWhitespace line.text := by
      rw [Text.splitWhitespace_stripLast (by decide), printLine]
      exact Text.splitWhitespace_append_blank line.text hend
    refine ⟨⟨fun hnil => ?_, fun hhead => ?_⟩, line.ofLine_of_words hwords⟩
    · rw [hnil, line.words_text] at hwords
      cases hwords
    · have htext := Text.head?_of_stripLast hhead
      obtain ⟨c, rest, hcons⟩ := List.exists_cons_of_ne_nil line.text_ne_nil
      refine line.head?_text ?_
      rw [printLine, FileLine.text, hcons] at htext
      rw [hcons]
      exact htext

/-- The other lines are not taken. -/
theorem printLine_skipped {line : FileLine × Bool} (h : line.1.question? = none) :
    ¬ (Text.stripLast '\r' (printLine line) ≠ [] ∧
      (Text.stripLast '\r' (printLine line)).head? ≠ some '#') := by
  obtain ⟨line, crlf⟩ := line
  rintro ⟨hne, hhead⟩
  cases line with
  | empty => cases crlf <;> exact hne rfl
  | comment text _ => exact hhead (Text.head?_stripLast_cons (by decide) _)
  | question => cases h

/-- What is taken of a printed file are its questions, in order. -/
theorem queryLines_printFile (file : List (FileLine × Bool)) :
    (queryLines (printFile file)).map QueryEntry.ofLine = (questions file).map Question.entry := by
  rw [queryLines, printFile, Text.lines_terminated, List.map_map]
  · induction file with
    | nil => rfl
    | cons line file ih =>
      cases hq : line.1.question? with
      | none =>
        have hrest : questions (line :: file) = questions file := List.filterMap_cons_none hq
        rw [hrest, List.map_cons, List.filter_cons_of_neg (by simpa using printLine_skipped hq), ih]
      | some q =>
        obtain ⟨htaken, hentry⟩ := printLine_taken hq
        have hrest : questions (line :: file) = q :: questions file := List.filterMap_cons_some hq
        rw [hrest, List.map_cons, List.filter_cons_of_pos (by simpa using htaken), List.map_cons, ih,
          List.map_cons, ← hentry]
        rfl
  · exact List.forall_mem_map.mpr fun line _ => newline_notMem_printLine line

/-! ## The whole way -/

/-- The question under a cursor is asked: by the pool, whose template it is, and by the stream transports,
which draw it from the source. -/
def Asks (source : FileQuerySource) (pool : WireQueryPool) (q : Question) (cursor : UInt64) : Prop :=
  (∀ id buf, maxQuery ≤ buf.length → ∃ buf' len,
    pool.writeWithIndex cursor.toNat id buf = .ok (buf', len) ∧
      QueryMessage.decode (buf'.take len) = some (q.message id)) ∧
    ∃ entry, source.next cursor = some (entry, cursor + 1) ∧
      ∀ id, QueryMessage.decode (buildQuery id entry.name entry.qtype) = some (q.message id)

/-- Both transports ask for the entry under the cursor. -/
theorem asks_of_entries {source : FileQuerySource} {pool : WireQueryPool} {qs : List Question}
    {rand : Fin 4096 → BitVec 128} (hentries : source.entries = qs.map Question.entry)
    (hpool : WireQueryPool.fromPairs (QuerySource.allWirePairs rand (.file source)) = .ok pool)
    {cursor : UInt64} {q : Question} (hq : qs[cursor.toNat % qs.length]? = some q) :
    Asks source pool q cursor := by
  constructor
  · intro id buf hbuf
    have htemplates : pool.templates
        = qs.map fun q => buildWireTemplate q.entry.name q.entry.qtype := by
      rw [WireQueryPool.templates_of_fromPairs hpool, QuerySource.allWirePairs, hentries, List.map_map,
        List.map_map]
      rfl
    have htemplate : pool.templates[cursor.toNat % pool.templates.length]?
        = some (buildWireTemplate q.entry.name q.entry.qtype) := by
      rw [htemplates, List.length_map, List.getElem?_map, hq]
      rfl
    have hfits : (buildWireTemplate q.entry.name q.entry.qtype).length ≤ buf.length := by
      have hname := q.labelOctets_name
      rw [length_buildWireTemplate]
      unfold maxQuery at hbuf
      exact le_trans (by simp only [Question.entry]; omega) hbuf
    refine ⟨_, _, WireQueryPool.patch_template pool cursor.toNat id _ _ htemplate hfits, ?_⟩
    rw [List.take_left]
    exact q.decode_buildQuery id
  · refine ⟨q.entry, ?_, q.decode_buildQuery⟩
    rw [FileQuerySource.next, nextEntry, hentries, List.length_map, List.getElem?_map, hq]
    rfl

/-- For every query file, given by its lines and printed in any way the format allows: if it states a
question it is loaded as its questions in order, and at every cursor both kinds of transport send a query
that a strict parser reads as the question the cursor points at; otherwise it is refused. -/
theorem file_reaches_wire (path : String) (file : List (FileLine × Bool)) (rand : Fin 4096 → BitVec 128) :
    (questions file ≠ [] → ∃ source pool,
      FileQuerySource.load path (some (printFile file)) = .ok source ∧
      source.entries = (questions file).map Question.entry ∧
      WireQueryPool.fromPairs (QuerySource.allWirePairs rand (.file source)) = .ok pool ∧
      ∀ cursor : UInt64, ∃ q, (questions file)[cursor.toNat % (questions file).length]? = some q ∧
        Asks source pool q cursor) ∧
      (questions file = [] → FileQuerySource.load path (some (printFile file))
        = .error ("query file " ++ path ++ " contains no valid entries")) := by
  have hlines := queryLines_printFile file
  constructor
  · intro hne
    have htaken : queryLines (printFile file) ≠ [] := by
      intro hnil
      rw [hnil, List.map_nil, eq_comm, List.map_eq_nil_iff] at hlines
      exact hne hlines
    obtain ⟨source, hload, hentries⟩ := FileQuerySource.load_eq_ok path htaken
    obtain ⟨pool, hpool⟩ := exists_pool (.file source) rand
    rw [hlines] at hentries
    refine ⟨source, pool, hload, hentries, hpool, fun cursor => ?_⟩
    have hlt : cursor.toNat % (questions file).length < (questions file).length :=
      Nat.mod_lt _ (List.length_pos_iff.mpr hne)
    have hq := List.getElem?_eq_getElem hlt
    exact ⟨_, hq, asks_of_entries hentries hpool hq⟩
  · intro hnil
    refine FileQuerySource.load_eq_error path ?_
    rw [hnil, List.map_nil, List.map_eq_nil_iff] at hlines
    exact hlines

theorem isName_wwwTest : IsName ["www".toList, "test".toList] where
  ne_nil := by decide
  isWord := by decide
  length_le := by decide
  octets_le := by decide
  head_ne := by decide

def wwwTest : Question := ⟨["www".toList, "test".toList], 28, isName_wwwTest⟩

theorem blank_wwwTest : ∀ b ∈ [[' '], ['\t'], []], Text.IsBlank b ∧ '\n' ∉ b := by decide

theorem typed_wwwTest :
    (['\t'] ≠ [] ∧ IsTypeText wwwTest.qtype "aAaA".toList) ∨ ("aAaA".toList = [] ∧ wwwTest.qtype = 1) :=
  .inl ⟨by decide, .inr ⟨("AAAA", 28), by decide, rfl, by decide⟩⟩

/-- Indented, with a tab, and the record type in mixed case. -/
def wwwTestLine : QuestionLine :=
  ⟨wwwTest, [' '], ['\t'], "aAaA".toList, [], blank_wwwTest, typed_wwwTest⟩

theorem newline_notMem_names : '\n' ∉ " names".toList := by decide

/-- A comment, the question and an empty line. -/
def threeLinesFile : List (FileLine × Bool) :=
  [(.comment " names".toList newline_notMem_names, true), (.question wwwTestLine, true), (.empty, false)]

/-- The file as it is printed, and that its one question is asked at a cursor. -/
theorem file_reaches_wire_threeLines :
    printFile threeLinesFile = "# names\r\n www.test\taAaA\r\n\n".toList ∧
      ∃ source pool, FileQuerySource.load "queries.txt" (some (printFile threeLinesFile)) = .ok source ∧
        WireQueryPool.fromPairs (QuerySource.allWirePairs (fun _ => 0) (.file source)) = .ok pool ∧
        Asks source pool wwwTest 5 := by
  refine ⟨by decide, ?_⟩
  obtain ⟨source, pool, hload, -, hpool, hasks⟩ :=
    (file_reaches_wire "queries.txt" threeLinesFile fun _ => 0).1 (List.cons_ne_nil _ _)
  obtain ⟨q, hq, hasks⟩ := hasks 5
  obtain rfl : wwwTest = q := Option.some.inj hq
  exact ⟨source, pool, hload, hpool, hasks⟩

end Dnsmark
