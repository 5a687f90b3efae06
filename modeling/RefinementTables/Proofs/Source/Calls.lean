import RefinementTables.Proofs.Delimited.Extents
import RefinementTables.Proofs.Delimited.Field
import RefinementTables.Proofs.Source

/-!
Reading a table by calls.

A source is asked to pass over a record or to give the next one, in any order, and is
asked again after a fault. Every call takes one record, whatever comes of it.

* `answers_eq` — what a run of calls answers and counts: by the step lemma `answer_eq`,
  along the calls.
* `ItemOf`, `AnswerOf` — what may be said of a record. It settles the answer
  (`itemOf_iff`, `answerTo_iff`).
* `calls_answered` — for every file and all calls, the answer to a call is that of the
  record in its place, and the rows that were given are counted.
-/

namespace RefinementTables.Source

open Delimited

/-! ### Calls -/

inductive Call where
  | passHeader
  | next
deriving DecidableEq, Repr

/-- What comes of a call. -/
inductive Answer where
  | passed (result : Except Fault Unit)
  | item (item : Option (Except Fault Row))

/-- Whether a row was given. -/
def Answer.isRow : Answer → Bool
  | .item (some given) => given.isOk
  | _ => false

def answer (s : Source) : Call → Answer × Source
  | .passHeader => (.passed s.passHeader.1, s.passHeader.2)
  | .next => (.item s.next.1, s.next.2)

/-- Calls one after the other. -/
def answers (s : Source) : List Call → List Answer × Source
  | [] => ([], s)
  | call :: calls =>
    let (answer, left) := s.answer call
    let (later, left) := left.answers calls
    (answer :: later, left)

/-- The answer to a call by the record that it meets, if one is left. -/
def answerTo (path : String) (columns : List String) :
    Call → Option (Except DelimitedFault Entry) → Answer
  | .passHeader, some (.error fault) => .passed (.error (.delimited fault))
  | .passHeader, _ => .passed (.ok ())
  | .next, record => .item (record.map (itemOf path columns))

/-- The source after an answer: a record is gone, and a row that was given is counted. -/
def after (s : Source) (given : Answer) : Source :=
  { s with pending := s.pending.tail, yielded := s.yielded + if given.isRow then 1 else 0 }

/-- The step lemma: a call is answered by the first of the records that are left. -/
theorem answer_eq (s : Source) (call : Call) :
    s.answer call = (answerTo s.path s.columns call s.pending.head?,
      s.after (answerTo s.path s.columns call s.pending.head?)) := by
  obtain ⟨path, columns, pending, yielded⟩ := s
  cases call with
  | passHeader =>
    cases pending with
    | nil => rfl
    | cons record rest => cases record <;> rfl
  | next => cases pending <;> rfl

/-- A run of calls: each is answered by the record in its place, and the rows that were
given are counted. -/
theorem answers_eq (s : Source) (calls : List Call) :
    (s.answers calls).1.length = calls.length ∧
      (∀ (k : Nat) (call : Call), calls[k]? = some call →
        (s.answers calls).1[k]? = some (answerTo s.path s.columns call s.pending[k]?)) ∧
      (s.answers calls).2.yielded = s.yielded + (s.answers calls).1.countP Answer.isRow := by
  induction calls generalizing s with
  | nil => exact ⟨rfl, nofun, rfl⟩
  | cons call calls ih =>
    rw [answers, answer_eq]
    dsimp only
    obtain ⟨length, each, counted⟩ :=
      ih (s.after (answerTo s.path s.columns call s.pending.head?))
    refine ⟨congrArg (· + 1) length, ?_, ?_⟩
    · intro k other there
      cases k with
      | zero =>
        cases there
        rw [List.head?_eq_getElem?]
        rfl
      | succ k =>
        have found := each k other there
        rw [after, List.getElem?_tail] at found
        exact found
    · have one : (s.after (answerTo s.path s.columns call s.pending.head?)).yielded =
          s.yielded + if (answerTo s.path s.columns call s.pending.head?).isRow then 1 else 0 := rfl
      rw [counted, List.countP_cons, one]
      omega

/-! ### What becomes of a record -/

section Records

variable {d : UInt8} {path : String} {columns : List String} {index : Nat} {e : Extent}

/-- The texts of the fields of a record, without the white space at their ends. -/
def Reads (d : UInt8) (e : Extent) (texts : List String) : Prop :=
  (fieldsOf d e.text).map fieldText? = texts.map some

/-- The fault of a record with a field that is not text. It names the first such field, and
where the record stands. -/
def Garbled (d : UInt8) (index : Nat) (e : Extent) (fault : DelimitedFault) : Prop :=
  ∃ before field, FirstUnreadable (fieldsOf d e.text) before field ∧
    fault = .notText index e.line before.length e.passed.length
      (Text.validPrefix (Text.trimWhile isAsciiBlank field))

/-- A row with the texts of a record: it has the declared names, each at its first place,
and under a name the text in the last place of it. -/
structure Fills (columns texts : List String) (row : Row) : Prop where
  fits : texts.length = columns.length
  names : row.columns = columns.eraseDups
  cells : ∀ name k, LastAt columns name k →
    ∃ text, texts[k]? = some text ∧ row.get? name = some (.text text)

/-- The item that is given for a record. -/
inductive ItemOf (d : UInt8) (path : String) (columns : List String) (index : Nat)
    (e : Extent) : Except Fault Row → Prop
  /-- A field is not text. -/
  | garbled {fault : DelimitedFault} (bad : Garbled d index e fault) :
      ItemOf d path columns index e (.error (.delimited fault))
  /-- The number of fields is not the declared one. -/
  | malformed {texts : List String} (reads : Reads d e texts)
      (differs : texts.length ≠ columns.length) :
      ItemOf d path columns index e
        (.error (.malformedRow path e.line columns.length texts.length))
  | row {texts : List String} {row : Row} (reads : Reads d e texts)
      (fills : Fills columns texts row) (origin : row.origin = some ⟨path, e.line⟩) :
      ItemOf d path columns index e (.ok row)

/-- The answer to a call, by the record in its place. -/
inductive AnswerOf (d : UInt8) (path : String) (columns : List String) (index : Nat) :
    Call → Option Extent → Answer → Prop
  | passedEnd : AnswerOf d path columns index .passHeader none (.passed (.ok ()))
  | nextEnd : AnswerOf d path columns index .next none (.item none)
  /-- A header may have any number of fields. -/
  | header {e : Extent} {texts : List String} (reads : Reads d e texts) :
      AnswerOf d path columns index .passHeader (some e) (.passed (.ok ()))
  | garbledHeader {e : Extent} {fault : DelimitedFault} (bad : Garbled d index e fault) :
      AnswerOf d path columns index .passHeader (some e) (.passed (.error (.delimited fault)))
  | item {e : Extent} {item : Except Fault Row} (given : ItemOf d path columns index e item) :
      AnswerOf d path columns index .next (some e) (.item (some item))

theorem entry_ok_iff {texts : List String} :
    (e.piece d).entry index = .ok ⟨texts, e.line⟩ ↔ Reads d e texts := by
  rw [entry_eq_ok_iff]
  exact and_iff_left rfl

theorem entry_error_iff {fault : DelimitedFault} :
    (e.piece d).entry index = .error fault ↔ Garbled d index e fault := by
  unfold Piece.entry Extent.piece
  constructor
  · cases read : fieldTexts (fieldsOf d e.text) with
    | ok texts => rintro ⟨⟩
    | error first =>
      rintro ⟨⟩
      obtain ⟨before, field, unreadable, same, valid⟩ := fieldTexts_eq_error_iff.mp read
      refine ⟨before, field, unreadable, ?_⟩
      rw [same, valid]
  · rintro ⟨before, field, unreadable, rfl⟩
    rw [fieldTexts_firstUnreadable unreadable]

/-- A record has texts, or its first field without one is at fault. -/
theorem entry_cases (d : UInt8) (index : Nat) (e : Extent) :
    (∃ texts, (e.piece d).entry index = .ok ⟨texts, e.line⟩) ∨
      ∃ fault, (e.piece d).entry index = .error fault := by
  cases read : (e.piece d).entry index with
  | ok entry =>
    obtain ⟨texts, line⟩ := entry
    obtain rfl : line = e.line := (entry_eq_ok_iff.mp read).2
    exact .inl ⟨texts, rfl⟩
  | error fault => exact .inr ⟨fault, rfl⟩

/-- A record with as many fields as names are declared gives a row with its texts. -/
theorem rowOf_of_fits {texts : List String} (fits : texts.length = columns.length)
    (path : String) (line : Nat) :
    ∃ row, rowOf path columns ⟨texts, line⟩ = .ok row ∧ Fills columns texts row ∧
      row.columns.Nodup ∧ row.origin = some ⟨path, line⟩ := by
  have given : rowOf path columns ⟨texts, line⟩ = .ok _ := if_pos fits
  refine ⟨_, given, ⟨fits, ?_, ?_⟩, Row.nodup_columns_ofPairs _, rfl⟩
  · refine (Row.columns_ofPairs _).trans ?_
    rw [List.map_fst_zip (by simp [fits])]
  · intro name k last
    have below : k < texts.length := last.lt_length fits
    refine ⟨texts[k], List.getElem?_eq_getElem below, ?_⟩
    rw [(rowOf_ok given).cells, lastField_eq_getElem? fits last, List.getElem?_eq_getElem below,
      Option.map_some]

/-- Rows with the same texts hold the same under every declared name. -/
theorem Fills.get?_eq {texts : List String} {row other : Row} (fills : Fills columns texts row)
    (fills_other : Fills columns texts other) {name : String} (declared : name ∈ columns) :
    other.get? name = row.get? name := by
  obtain ⟨k, last⟩ := exists_lastAt declared
  obtain ⟨text, there, held⟩ := fills.cells name k last
  obtain ⟨text', there', held'⟩ := fills_other.cells name k last
  rw [there] at there'
  cases there'
  rw [held, held']

theorem rowOf_ok_iff {texts : List String} {line : Nat} {row : Row} :
    rowOf path columns ⟨texts, line⟩ = .ok row ↔
      Fills columns texts row ∧ row.origin = some ⟨path, line⟩ := by
  constructor
  · intro read
    obtain ⟨row', given, fills, -, origin⟩ := rowOf_of_fits (rowOf_ok read).fits path line
    rw [given] at read
    cases read
    exact ⟨fills, origin⟩
  · rintro ⟨fills, origin⟩
    obtain ⟨row', given, fills', distinct, origin'⟩ := rowOf_of_fits fills.fits path line
    have same : row = row' := by
      apply Row.eq_of_get? distinct
      · rw [fills.names, fills'.names]
      · intro name mem
        rw [fills'.names, List.mem_eraseDups] at mem
        exact fills'.get?_eq fills mem
      · rw [origin, origin']
    rw [given, same]

/-- What may be said of a record is what is given for it. -/
theorem itemOf_iff {item : Except Fault Row} :
    itemOf path columns ((e.piece d).entry index) = item ↔ ItemOf d path columns index e item := by
  constructor
  · rintro rfl
    rcases entry_cases d index e with ⟨texts, read⟩ | ⟨fault, read⟩
    · rw [read, itemOf]
      by_cases fits : texts.length = columns.length
      · obtain ⟨row, given, fills, -, origin⟩ := rowOf_of_fits fits path e.line
        rw [given]
        exact .row (entry_ok_iff.mp read) fills origin
      · rw [rowOf, if_neg fits]
        exact .malformed (entry_ok_iff.mp read) fits
    · rw [read, itemOf]
      exact .garbled (entry_error_iff.mp read)
  · intro given
    cases given with
    | garbled bad => rw [entry_error_iff.mpr bad, itemOf]
    | malformed reads differs => rw [entry_ok_iff.mpr reads, itemOf, rowOf, if_neg differs]
    | row reads fills origin =>
      rw [entry_ok_iff.mpr reads, itemOf, rowOf_ok_iff.mpr ⟨fills, origin⟩]

/-- A call is answered by the record in its place. -/
theorem answerTo_iff {call : Call} {record : Option Extent} {given : Answer} :
    answerTo path columns call (record.map fun e => (e.piece d).entry index) = given ↔
      AnswerOf d path columns index call record given := by
  constructor
  · rintro rfl
    cases record with
    | none =>
      cases call with
      | passHeader => exact .passedEnd
      | next => exact .nextEnd
    | some e =>
      cases call with
      | passHeader =>
        rw [Option.map_some]
        rcases entry_cases d index e with ⟨texts, read⟩ | ⟨fault, read⟩
        · rw [read]
          exact .header (entry_ok_iff.mp read)
        · rw [read]
          exact .garbledHeader (entry_error_iff.mp read)
      | next => exact .item (itemOf_iff.mp rfl)
  · intro answered
    cases answered with
    | passedEnd | nextEnd => rfl
    | header reads =>
      rw [Option.map_some, entry_ok_iff.mpr reads]
      rfl
    | garbledHeader bad =>
      rw [Option.map_some, entry_error_iff.mpr bad]
      rfl
    | item item =>
      rw [Option.map_some, answerTo, Option.map_some, itemOf_iff.mpr item]

end Records

/-! ### Calls on a file -/

section Files

variable {t : FileTree} {path : String} {place : Place} {bytes : Bytes} {d : UInt8}
  {columns : List String} {records : List Extent}

theorem ofTree_file (found : t.find path = .ok (place, .file bytes)) :
    ofTree t path d columns = .ok ⟨path, columns, entries d bytes, 0⟩ := by
  simp only [ofTree, recordsAt, found]
  rfl

theorem getElem?_entries (falls : FallsInto d bytes records) (k : Nat) :
    (entries d bytes)[k]? = records[k]?.map fun e => (e.piece d).entry k := by
  rw [entries, pieces_of_fallsInto falls, List.getElem?_map, List.getElem?_zipIdx,
    List.getElem?_map]
  cases records[k]? <;> simp

/-- The answers to calls on a file: each is that of the record in its place, and there is no
other. -/
theorem answers_of_fallsInto (falls : FallsInto d bytes records) (path : String)
    (columns : List String) {calls : List Call} {k : Nat} {call : Call}
    (there : calls[k]? = some call) (given : Answer) :
    ((Source.mk path columns (entries d bytes) 0).answers calls).1[k]? = some given ↔
      AnswerOf d path columns k call records[k]? given := by
  obtain ⟨-, each, -⟩ := answers_eq ⟨path, columns, entries d bytes, 0⟩ calls
  rw [each k call there, Option.some.injEq, getElem?_entries falls]
  exact answerTo_iff

/-- Nothing in a file is lost, and nothing is given twice: whatever is asked of it, the
answer to every call is that of the record in its place, and the rows that were given are
counted. -/
theorem calls_answered (found : t.find path = .ok (place, .file bytes)) (d : UInt8)
    (columns : List String) :
    (∃! records, FallsInto d bytes records) ∧
      ∀ records, FallsInto d bytes records →
        ∃ source, ofTree t path d columns = .ok source ∧ ∀ calls,
          (source.answers calls).1.length = calls.length ∧
          (∀ (k : Nat) (call : Call), calls[k]? = some call → ∀ given,
            (source.answers calls).1[k]? = some given ↔
              AnswerOf d path columns k call records[k]? given) ∧
          (source.answers calls).2.yielded = (source.answers calls).1.countP Answer.isRow := by
  refine ⟨existsUnique_fallsInto d bytes, ?_⟩
  intro records falls
  refine ⟨_, ofTree_file found, ?_⟩
  intro calls
  obtain ⟨length, -, counted⟩ := answers_eq ⟨path, columns, entries d bytes, 0⟩ calls
  refine ⟨length, ?_, ?_⟩
  · intro k call there
    exact answers_of_fallsInto falls path columns there
  · rw [counted, Nat.zero_add]

end Files

/-! ### A file with records of every kind -/

/-- A header with three fields, a record that goes over two lines, one with bytes that are
not text, and one that is too short. -/
def mixedFile : Bytes :=
  Text.toBytes "x;y;z\n a ;\"b\nc\"\n" ++ [0xFF, 59, 49, 10] ++ Text.toBytes "5\n"

def mixedTree : FileTree where
  here := []
  nodes := [(.named [], .directory), (.named ["t.csv"], .file mixedFile)]
  unused := 0

/-- Any calls on that file, with one name for two columns. -/
theorem calls_mixedTree :
    mixedTree.find "t.csv" = .ok (["t.csv"], .file mixedFile) ∧
    (∃! records, FallsInto 59 mixedFile records) ∧
      ∀ records, FallsInto 59 mixedFile records →
        ∃ source, ofTree mixedTree "t.csv" 59 ["q", "q"] = .ok source ∧ ∀ calls,
          (source.answers calls).1.length = calls.length ∧
          (∀ (k : Nat) (call : Call), calls[k]? = some call → ∀ given,
            (source.answers calls).1[k]? = some given ↔
              AnswerOf 59 "t.csv" ["q", "q"] k call records[k]? given) ∧
          (source.answers calls).2.yielded = (source.answers calls).1.countP Answer.isRow := by
  have found : mixedTree.find "t.csv" = .ok (["t.csv"], .file mixedFile) := by rfl
  exact ⟨found, calls_answered found 59 ["q", "q"]⟩

end RefinementTables.Source
