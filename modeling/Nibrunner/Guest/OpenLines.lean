import Nibrunner.ForStd.TextLines
import Nibrunner.ForStd.Utf8
import Nibrunner.Protocol.LogEvents

/-!
# The lines of a guest's log

A connection hands what a guest forwards over line by line. A line that is not ended yet is held,
until its newline comes, it is too long, the guest is idle, or nothing more comes of it.

`texts_of_lines`: **nothing of a line is lost and no character is split**. However a stream was cut
into frames, and wherever the guest was idle between them, the texts of the stream put together
are those of its lines.
-/

namespace Nibrunner.GuestLogs

open Bytes Checked Utf8

/-- A line no newline ends is cut here rather than held without bound. -/
def longestLineBytes : ℕ := 64 * 1024

def lossy (bytes : List UInt8) : String := fromUtf8Lossy bytes

/-- The rounds of `complete_prefix`, from an offset on. -/
def completePrefixRounds : ℕ → List UInt8 → ℕ → Checked Empty ℕ
  | 0, _, _ => .stuck
  | rounds + 1, bytes, offset => do
    let rest ← slice bytes offset bytes.length
    match fromUtf8Error? rest with
    | none => return bytes.length
    | some ⟨validUpTo, none⟩ => return offset + validUpTo
    | some ⟨validUpTo, some invalid⟩ =>
      completePrefixRounds rounds bytes (offset + (validUpTo + invalid))

/-- How much of some bytes is whole characters: everything but a multi-byte sequence cut off at the
end, whose remaining bytes may yet arrive. -/
def completePrefix (bytes : List UInt8) : Checked Empty ℕ :=
  completePrefixRounds (bytes.length + 1) bytes 0

/-- What each stream has written since its last newline. -/
structure OpenLines where
  stdout : List UInt8
  stderr : List UInt8
deriving DecidableEq

namespace OpenLines

def new : OpenLines := ⟨[], []⟩

def on (s : OpenLines) : TenantLogStream → List UInt8
  | .stdout => s.stdout
  | .stderr => s.stderr

def hold (s : OpenLines) (stream : TenantLogStream) (held : List UInt8) : OpenLines :=
  match stream with
  | .stdout => { s with stdout := held }
  | .stderr => { s with stderr := held }

/-- The lines that are ended in what came, and what is held behind them. -/
def endLines (held rest : List UInt8) : List String × List UInt8 :=
  match _h : rest.findIdx? (· == newline) with
  | some position =>
    let text :=
      if held = [] then lossy (rest.take position) else lossy (held ++ rest.take position)
    let (texts, held) := endLines [] (rest.drop (position + 1))
    (text :: texts, held)
  | none => ([], held ++ rest)
termination_by rest.length
decreasing_by
  obtain ⟨hposition, -⟩ := List.findIdx?_eq_some_iff_getElem.mp _h
  rw [List.length_drop]
  omega

/-- What is handed over of a line that is held, and what is held on. -/
def cutLine (held : List UInt8) : Checked Empty (List UInt8 × List UInt8) := do
  let cut ← completePrefix held
  let whole ← slice held 0 cut
  return (whole, held.drop cut)

def extend (s : OpenLines) (stream : TenantLogStream) (bytes : List UInt8) :
    Checked Empty (OpenLines × List String) := do
  let (texts, held) := endLines (s.on stream) bytes
  if longestLineBytes ≤ held.length then
    let (whole, held) ← cutLine held
    return (s.hold stream held, texts ++ [lossy whole])
  else return (s.hold stream held, texts)

def flushStream (s : OpenLines) (stream : TenantLogStream) :
    Checked Empty (OpenLines × List String) := do
  let (whole, held) ← cutLine (s.on stream)
  if 0 < whole.length then return (s.hold stream held, [lossy whole])
  else return (s, [])

def closeStream (s : OpenLines) (stream : TenantLogStream) : OpenLines × List String :=
  let held := s.on stream
  if held = [] then (s, []) else (s.hold stream [], [lossy held])

end OpenLines

/-- What a connection acts on. -/
inductive LogTurn where
  | frame (frame : GuestLogFrame)
  | idle

def lineEvents (stream : TenantLogStream) (texts : List String) : List TenantLogBody :=
  texts.map (.data stream)

namespace OpenLines

def flush (s : OpenLines) : Checked Empty (OpenLines × List TenantLogBody) := do
  let (s, stdout) ← s.flushStream .stdout
  let (s, stderr) ← s.flushStream .stderr
  return (s, lineEvents .stdout stdout ++ lineEvents .stderr stderr)

def close (s : OpenLines) : OpenLines × List TenantLogBody :=
  let (s, stdout) := s.closeStream .stdout
  let (s, stderr) := s.closeStream .stderr
  (s, lineEvents .stdout stdout ++ lineEvents .stderr stderr)

/-- What is published of a turn. A gap and a restart end the lines before them. -/
def turn (s : OpenLines) : LogTurn → Checked Empty (OpenLines × List TenantLogBody)
  | .frame (.gap droppedBytes) =>
    let (s, bodies) := s.close
    return (s, bodies ++ [.gap droppedBytes])
  | .frame (.restart restart) =>
    let (s, bodies) := s.close
    return (s, bodies ++ [.restart restart])
  | .frame (.data stream bytes) => do
    let (s, texts) ← s.extend stream bytes
    return (s, lineEvents stream texts)
  | .idle => s.flush

/-- What is published of a connection, the lines still open at its end with it. -/
def turns : OpenLines → List LogTurn → Checked Empty (List TenantLogBody)
  | s, [] => return s.close.2
  | s, next :: rest => do
    let (s, bodies) ← s.turn next
    let more ← s.turns rest
    return bodies ++ more

end OpenLines

/-! ### The cut of a line -/

theorem completePrefixRounds_eq {rounds offset : ℕ} {bytes : List UInt8}
    (hoffset : offset ≤ bytes.length) (hrounds : bytes.length < rounds + offset) :
    completePrefixRounds rounds bytes offset =
      .ok (bytes.length - (unfinishedEnd (bytes.drop offset)).length) := by
  induction rounds generalizing offset with
  | zero => omega
  | succ rounds ih =>
    rw [completePrefixRounds, slice_length hoffset, ok_bind]
    have hlength : (bytes.drop offset).length = bytes.length - offset := List.length_drop
    rcases fromUtf8Error?_cases (bytes.drop offset) with ⟨herror, hend⟩ |
      ⟨valid, hvalid, -, herror⟩ | ⟨valid, rest, n, hvalid, hrest, herror, hend⟩
    · rw [herror, hend]
      rfl
    · have hsplit := congrArg List.length hvalid
      rw [List.length_append] at hsplit
      rw [herror]
      exact congrArg Checked.ok (by omega)
    · have hsplit := congrArg List.length hvalid
      have hn := head_bounds hrest
      rw [List.length_append] at hsplit
      have hdrop : bytes.drop (offset + (valid.length + n)) = rest.drop n := by
        rw [← List.drop_drop, hvalid, ← List.drop_drop, List.drop_left]
      rw [herror, hend, ← hdrop]
      exact ih (by omega) (by omega)

/-- What is left behind the whole characters is the unfinished one. -/
theorem completePrefix_eq (bytes : List UInt8) :
    completePrefix bytes = .ok (bytes.length - (unfinishedEnd bytes).length) :=
  completePrefixRounds_eq (Nat.zero_le _) (Nat.lt_succ_self _)

namespace OpenLines

theorem cutLine_eq (held : List UInt8) :
    ∃ whole, held = whole ++ unfinishedEnd held ∧
      cutLine held = .ok (whole, unfinishedEnd held) := by
  obtain ⟨whole, hwhole⟩ := exists_eq_append_unfinishedEnd held
  have hcut : held.length - (unfinishedEnd held).length = whole.length := by
    have := congrArg List.length hwhole
    rw [List.length_append] at this
    omega
  refine ⟨whole, hwhole, ?_⟩
  rw [cutLine, completePrefix_eq, ok_bind, hcut, slice_zero, ok_bind, pure_eq]
  · generalize unfinishedEnd held = rest at hwhole
    rw [hwhole, List.take_left, List.drop_left]
  · rw [← hcut]
    exact Nat.sub_le _ _

/-! ### The characters of lines -/

/-- The characters of the lines of some bytes. -/
def lineChars (bytes : List UInt8) : List Char := (bytes.splitOn newline).flatMap lossyChars

theorem lineChars_of_notMem {line : List UInt8} (h : newline ∉ line) :
    lineChars line = lossyChars line := by
  rw [lineChars, List.splitOn_eq_singleton h, List.flatMap_singleton]

theorem lineChars_newline {line : List UInt8} (h : newline ∉ line) (rest : List UInt8) :
    lineChars (line ++ newline :: rest) = lossyChars line ++ lineChars rest := by
  rw [lineChars, List.splitOn_append_cons_self_of_not_mem h, List.flatMap_cons, lineChars]

/-- A cut before an unfinished character leaves the lines as they are, whatever is to come. -/
theorem lineChars_cut {held whole : List UInt8} (hheld : newline ∉ held)
    (h : held = whole ++ unfinishedEnd held) (rest : List UInt8) :
    lineChars (held ++ rest) = lossyChars whole ++ lineChars (unfinishedEnd held ++ rest) := by
  obtain ⟨first, others, -, hsplit⟩ := TextLines.exists_splitOn_append newline rest
  have hend : newline ∉ unfinishedEnd held := fun hmem =>
    hheld (h ▸ List.mem_append_right whole hmem)
  rw [lineChars, hsplit held hheld, lineChars, hsplit _ hend, List.flatMap_cons, List.flatMap_cons,
    ← List.append_assoc, ← lossyChars_append (not_splits_unfinishedEnd h first),
    ← List.append_assoc, ← h]

/-! ### What an operation hands over -/

/-- From what was held and what came, the texts are handed over and the rest is held: put together
they are the same lines, whatever is to come. -/
structure HandsOver (before : List UInt8) (texts : List String) (held : List UInt8) : Prop where
  open_line : newline ∉ held
  chars : ∀ rest, lineChars (before ++ rest) =
    texts.flatMap String.toList ++ lineChars (held ++ rest)

theorem HandsOver.nothing {held : List UInt8} (h : newline ∉ held) : HandsOver held [] held :=
  ⟨h, fun _ => rfl⟩

theorem HandsOver.trans {a b c : List UInt8} {front back : List String} (h : HandsOver a front b)
    (h' : HandsOver b back c) : HandsOver a (front ++ back) c where
  open_line := h'.open_line
  chars rest := by
    rw [h.chars, h'.chars, List.flatMap_append, List.append_assoc]

theorem handsOver_cut {held whole : List UInt8} (hheld : newline ∉ held)
    (h : held = whole ++ unfinishedEnd held) :
    HandsOver held [lossy whole] (unfinishedEnd held) where
  open_line hmem := hheld (h ▸ List.mem_append_right whole hmem)
  chars rest := by
    rw [lineChars_cut hheld h, List.flatMap_singleton, lossy, fromUtf8Lossy, String.toList_ofList]

theorem endLines_of_notMem {rest : List UInt8} (h : newline ∉ rest) (held : List UInt8) :
    endLines held rest = ([], held ++ rest) := by
  have hnone : rest.findIdx? (· == newline) = none := by
    rw [List.findIdx?_eq_none_iff]
    rintro byte hbyte
    exact beq_false_of_ne fun heq => h (heq ▸ hbyte)
  rw [endLines.eq_def]
  split
  · rename_i hsome
    rw [hnone] at hsome
    cases hsome
  · rfl

theorem endLines_newline {line : List UInt8} (h : newline ∉ line) (held rest : List UInt8) :
    endLines held (line ++ newline :: rest) =
      (lossy (held ++ line) :: (endLines [] rest).1, (endLines [] rest).2) := by
  have hfind : (line ++ newline :: rest).findIdx? (· == newline) = some line.length := by
    rw [List.findIdx?_eq_some_iff_getElem]
    refine ⟨by simp, by simp, fun i hi => ?_⟩
    rw [List.getElem_append_left hi]
    exact fun heq => h (beq_iff_eq.mp heq ▸ List.getElem_mem hi)
  rw [endLines.eq_def]
  split
  · rename_i position hsome
    obtain rfl := Option.some.inj (hfind.symm.trans hsome)
    have hdrop : (line ++ [newline] ++ rest).drop (line ++ [newline]).length = rest :=
      List.drop_left
    rw [List.length_append, List.length_singleton, ← List.append_cons] at hdrop
    rw [List.take_left, hdrop]
    by_cases hheld : held = []
    · rw [if_pos hheld, hheld, List.nil_append]
    · rw [if_neg hheld]
  · rename_i hnone
    rw [hfind] at hnone
    cases hnone

theorem endLines_handsOver {held : List UInt8} (h : newline ∉ held) (bytes : List UInt8) :
    HandsOver (held ++ bytes) (endLines held bytes).1 (endLines held bytes).2 := by
  have hfree : ∀ {line}, newline ∉ line → newline ∉ held ++ line := fun hline => by
    rw [List.mem_append, not_or]
    exact ⟨h, hline⟩
  induction bytes using TextLines.splitOn_induction newline generalizing held with
  | last line hline =>
    rw [endLines_of_notMem hline]
    exact .nothing (hfree hline)
  | parted line rest hline ih =>
    have hrest := @ih [] List.not_mem_nil (by simp)
    rw [List.nil_append] at hrest
    rw [endLines_newline hline]
    refine ⟨hrest.open_line, fun more => ?_⟩
    rw [← List.append_assoc, List.append_assoc, List.cons_append, lineChars_newline (hfree hline),
      hrest.chars, List.flatMap_cons, lossy, fromUtf8Lossy, String.toList_ofList,
      List.append_assoc]

section Operations

variable {s : OpenLines} {stream other : TenantLogStream}

@[simp] theorem on_hold (held : List UInt8) :
    (s.hold stream held).on other = if stream = other then held else s.on other := by
  cases stream <;> cases other <;> rfl

theorem extend_spec (h : newline ∉ s.on stream) (bytes : List UInt8) :
    ∃ texts held, s.extend stream bytes = .ok (s.hold stream held, texts) ∧
      HandsOver (s.on stream ++ bytes) texts held := by
  have hlines := endLines_handsOver h bytes
  rw [extend]
  dsimp only
  split
  · obtain ⟨whole, hwhole, hcut⟩ := cutLine_eq (endLines (s.on stream) bytes).2
    rw [hcut]
    exact ⟨_, _, rfl, hlines.trans (handsOver_cut hlines.open_line hwhole)⟩
  · exact ⟨_, _, rfl, hlines⟩

theorem flushStream_spec (h : newline ∉ s.on stream) :
    ∃ texts held, s.flushStream stream = .ok (s.hold stream held, texts) ∧
      HandsOver (s.on stream) texts held := by
  obtain ⟨whole, hwhole, hcut⟩ := cutLine_eq (s.on stream)
  rw [flushStream, hcut, ok_bind]
  dsimp only
  split
  · exact ⟨_, _, rfl, handsOver_cut h hwhole⟩
  · refine ⟨[], s.on stream, ?_, .nothing h⟩
    cases stream <;> rfl

theorem closeStream_spec :
    ∃ texts, s.closeStream stream = (s.hold stream [], texts) ∧
      texts.flatMap String.toList = lossyChars (s.on stream) := by
  rw [closeStream]
  by_cases hheld : s.on stream = []
  · refine ⟨[], ?_, by rw [hheld]; rfl⟩
    rw [if_pos hheld]
    cases stream
    · exact congrArg (fun held => ((⟨held, s.stderr⟩ : OpenLines), ([] : List String))) hheld
    · exact congrArg (fun held => ((⟨s.stdout, held⟩ : OpenLines), ([] : List String))) hheld
  · refine ⟨_, if_neg hheld, ?_⟩
    rw [List.flatMap_singleton, lossy, fromUtf8Lossy, String.toList_ofList]

end Operations

end OpenLines

/-! ### What a turn publishes -/

namespace LogTurn

/-- Whether no line goes on behind a turn. -/
def ends : LogTurn → Bool
  | .frame (.gap _) | .frame (.restart _) => true
  | .frame (.data _ _) | .idle => false

/-- What came of a stream with a turn. -/
def bytesOn (stream : TenantLogStream) : LogTurn → List UInt8
  | .frame (.data printed bytes) => if printed = stream then bytes else []
  | .frame (.gap _) | .frame (.restart _) | .idle => []

end LogTurn

theorem texts_lineEvents (printed stream : TenantLogStream) (texts : List String) :
    TenantLogBody.texts stream (lineEvents printed texts) =
      if printed = stream then texts else [] := by
  rw [TenantLogBody.texts, lineEvents, List.filterMap_map]
  by_cases h : printed = stream
  · rw [if_pos h]
    exact (List.filterMap_congr fun text _ => if_pos h).trans List.filterMap_some
  · rw [if_neg h]
    exact List.filterMap_eq_nil_iff.mpr fun text _ => if_neg h

namespace OpenLines

/-- No line that is held has ended. -/
def Open (s : OpenLines) : Prop := ∀ stream, newline ∉ s.on stream

theorem close_spec (s : OpenLines) :
    (∀ stream, s.close.1.on stream = []) ∧ ∀ stream,
      (TenantLogBody.texts stream s.close.2).flatMap String.toList = lossyChars (s.on stream) := by
  obtain ⟨stdout, hstdout, hout⟩ := @closeStream_spec s .stdout
  obtain ⟨stderr, hstderr, herr⟩ := @closeStream_spec (s.hold .stdout []) .stderr
  have hclose : s.close = ((s.hold .stdout []).hold .stderr [],
      lineEvents .stdout stdout ++ lineEvents .stderr stderr) := by
    rw [close, hstdout]
    dsimp only
    rw [hstderr]
  rw [hclose]
  refine ⟨fun stream => ?_, fun stream => ?_⟩
  · cases stream <;> rfl
  · rw [TenantLogBody.texts_append, texts_lineEvents, texts_lineEvents]
    cases stream
    · simpa using hout
    · simpa using herr

theorem flush_spec {s : OpenLines} (h : s.Open) :
    ∃ s' bodies, s.flush = .ok (s', bodies) ∧ ∀ stream,
      HandsOver (s.on stream) (TenantLogBody.texts stream bodies) (s'.on stream) := by
  obtain ⟨stdout, heldOut, hstdout, hout⟩ := flushStream_spec (h .stdout)
  obtain ⟨stderr, heldErr, hstderr, herr⟩ := @flushStream_spec (s.hold .stdout heldOut) .stderr
    (h .stderr)
  refine ⟨(s.hold .stdout heldOut).hold .stderr heldErr,
    lineEvents .stdout stdout ++ lineEvents .stderr stderr, ?_, fun stream => ?_⟩
  · rw [flush, hstdout, ok_bind]
    dsimp only
    rw [hstderr]
    rfl
  · rw [TenantLogBody.texts_append, texts_lineEvents, texts_lineEvents]
    cases stream
    · simpa using hout
    · simpa using herr

theorem turn_spec {s : OpenLines} (h : s.Open) (next : LogTurn) :
    ∃ s' bodies, s.turn next = .ok (s', bodies) ∧ s'.Open ∧ ∀ stream,
      if next.ends then
        s'.on stream = [] ∧
          (TenantLogBody.texts stream bodies).flatMap String.toList = lossyChars (s.on stream)
      else
        HandsOver (s.on stream ++ next.bytesOn stream) (TenantLogBody.texts stream bodies)
          (s'.on stream) := by
  -- what a gap and a restart say of themselves is no text
  have hclosed : ∀ body, (∀ stream, TenantLogBody.text? stream body = none) →
      s.close.1.Open ∧ ∀ stream, s.close.1.on stream = [] ∧
        (TenantLogBody.texts stream (s.close.2 ++ [body])).flatMap String.toList =
          lossyChars (s.on stream) := by
    intro body hbody
    obtain ⟨hempty, htexts⟩ := s.close_spec
    refine ⟨fun stream => by rw [hempty]; exact List.not_mem_nil, fun stream => ⟨hempty stream, ?_⟩⟩
    have hnone : TenantLogBody.texts stream [body] = [] := by
      rw [TenantLogBody.texts, List.filterMap_cons, hbody]
      rfl
    rw [TenantLogBody.texts_append, hnone, List.append_nil, htexts]
  cases next with
  | frame frame =>
    cases frame with
    | data printed bytes =>
      obtain ⟨texts, held, hextend, hhands⟩ := extend_spec (h printed) bytes
      have hstreams : ∀ stream, HandsOver (s.on stream ++ if printed = stream then bytes else [])
          (TenantLogBody.texts stream (lineEvents printed texts))
          ((s.hold printed held).on stream) := by
        intro stream
        rw [texts_lineEvents, on_hold]
        by_cases heq : printed = stream
        · rw [if_pos heq, if_pos heq, if_pos heq]
          exact heq ▸ hhands
        · rw [if_neg heq, if_neg heq, if_neg heq, List.append_nil]
          exact .nothing (h stream)
      refine ⟨s.hold printed held, lineEvents printed texts, ?_,
        fun stream => (hstreams stream).open_line, hstreams⟩
      rw [turn, hextend]
      rfl
    | gap droppedBytes =>
      exact ⟨_, _, rfl, hclosed (.gap droppedBytes) fun _ => rfl⟩
    | restart restart =>
      exact ⟨_, _, rfl, hclosed (.restart restart) fun _ => rfl⟩
  | idle =>
    obtain ⟨s', bodies, hflush, hstreams⟩ := flush_spec h
    refine ⟨s', bodies, hflush, fun stream => (hstreams stream).open_line, fun stream => ?_⟩
    rw [LogTurn.bytesOn, List.append_nil]
    exact hstreams stream

end OpenLines

/-! ### What a connection publishes -/

/-- What came of a stream before its lines were first ended by something else than a newline, and
what came behind each time. -/
def segments (stream : TenantLogStream) : List LogTurn → List UInt8 × List (List UInt8)
  | [] => ([], [])
  | next :: rest =>
    let later := segments stream rest
    if next.ends then ([], later.1 :: later.2) else (next.bytesOn stream ++ later.1, later.2)

/-- The lines of a stream. -/
def linesOf (stream : TenantLogStream) (turns : List LogTurn) : List (List UInt8) :=
  ((segments stream turns).1 :: (segments stream turns).2).flatMap (List.splitOn newline)

theorem OpenLines.turns_spec {s : OpenLines} (h : s.Open) (turns : List LogTurn) :
    ∃ bodies, s.turns turns = .ok bodies ∧ ∀ stream,
      (TenantLogBody.texts stream bodies).flatMap String.toList =
        lineChars (s.on stream ++ (segments stream turns).1) ++
          (segments stream turns).2.flatMap lineChars := by
  induction turns generalizing s with
  | nil =>
    refine ⟨s.close.2, rfl, fun stream => ?_⟩
    rw [segments, List.flatMap_nil, List.append_nil, List.append_nil,
      lineChars_of_notMem (h stream), s.close_spec.2]
  | cons next rest ih =>
    obtain ⟨s', bodies, hturn, hopen, hstreams⟩ := turn_spec h next
    obtain ⟨more, hmore, hrest⟩ := ih hopen
    refine ⟨bodies ++ more, ?_, fun stream => ?_⟩
    · rw [OpenLines.turns, hturn, ok_bind]
      dsimp only
      rw [hmore]
      rfl
    · have hstream := hstreams stream
      rw [TenantLogBody.texts_append, List.flatMap_append, hrest, segments]
      by_cases hends : next.ends
      · rw [if_pos hends] at hstream ⊢
        rw [hstream.2, hstream.1, List.nil_append, List.append_nil,
          lineChars_of_notMem (h stream), List.flatMap_cons]
      · rw [if_neg hends] at hstream ⊢
        rw [← List.append_assoc, ← hstream.chars, List.append_assoc]

/-- Where nothing but newlines ends lines, they are those of all that came of the stream. -/
theorem linesOf_of_not_ends (stream : TenantLogStream) {turns : List LogTurn}
    (h : ∀ next ∈ turns, next.ends = false) :
    linesOf stream turns = (turns.flatMap (LogTurn.bytesOn stream)).splitOn newline := by
  have hsegments : segments stream turns = (turns.flatMap (LogTurn.bytesOn stream), []) := by
    induction turns with
    | nil => rfl
    | cons next rest ih =>
      rw [segments, ih fun next hnext => h next (List.mem_cons_of_mem _ hnext),
        h next List.mem_cons_self, List.flatMap_cons]
      rfl
  rw [linesOf, hsegments, List.flatMap_singleton]

theorem join_lossy (lines : List (List UInt8)) :
    String.join (lines.map lossy) = String.ofList (lines.flatMap lossyChars) := by
  apply String.toList_inj.mp
  rw [String.toList_join, String.toList_ofList, List.flatMap_map]
  exact List.flatMap_congr fun line _ => String.toList_ofList

/-- A cut ends, leaves three bytes at most and none but those of a character that is cut off, and
does not change the text, whatever is to come. So the texts of a stream are its lines. -/
theorem texts_of_lines (turns : List LogTurn) :
    (∀ bytes, ∃ cut, completePrefix bytes = .ok cut ∧ cut ≤ bytes.length ∧
        bytes.length ≤ cut + 3 ∧ (cut = bytes.length ↔ ¬EndsUnfinished bytes) ∧
        ∀ rest, lossy (bytes ++ rest) = lossy (bytes.take cut) ++ lossy (bytes.drop cut ++ rest)) ∧
      ∃ bodies, OpenLines.new.turns turns = .ok bodies ∧ ∀ stream,
        String.join (TenantLogBody.texts stream bodies) =
            String.join ((linesOf stream turns).map lossy) ∧
          ((∀ next ∈ turns, next.ends = false) →
            linesOf stream turns = (turns.flatMap (LogTurn.bytesOn stream)).splitOn newline) := by
  refine ⟨fun bytes => ?_, ?_⟩
  · obtain ⟨whole, hwhole⟩ := exists_eq_append_unfinishedEnd bytes
    have hthree := length_unfinishedEnd_le bytes
    have hlength := congrArg List.length hwhole
    rw [List.length_append] at hlength
    have hcut : bytes.length - (unfinishedEnd bytes).length = whole.length := by omega
    refine ⟨whole.length, hcut ▸ completePrefix_eq bytes, by omega, by omega, ?_, fun rest => ?_⟩
    · rw [endsUnfinished_iff, not_not, ← List.length_eq_zero_iff]
      omega
    · have hchars := lossyChars_append (not_splits_unfinishedEnd hwhole rest)
      rw [← List.append_assoc, ← hwhole] at hchars
      generalize unfinishedEnd bytes = p at hwhole hchars
      rw [lossy, fromUtf8Lossy, hchars, hwhole, List.take_left, List.drop_left,
        String.ofList_append]
      rfl
  · have hopen : OpenLines.new.Open := fun stream => by
      cases stream <;> exact List.not_mem_nil
    obtain ⟨bodies, hbodies, htexts⟩ := OpenLines.turns_spec hopen turns
    refine ⟨bodies, hbodies, fun stream => ⟨?_, linesOf_of_not_ends stream⟩⟩
    have hempty : OpenLines.new.on stream = [] := by
      cases stream <;> rfl
    rw [join_lossy, linesOf, List.flatMap_assoc, List.flatMap_cons]
    apply String.toList_inj.mp
    rw [String.toList_join, htexts, hempty, List.nil_append, String.toList_ofList]
    rfl

end Nibrunner.GuestLogs
