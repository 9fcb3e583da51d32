import Nibrunner.Cron.Scheduling
import Nibrunner.ForStd.TextLines
import Nibrunner.ForStd.Utf8
import Nibrunner.Protocol.LogEvents

/-!
# What a cron run prints

The output of a run is handed over line by line, each line as text. A line that is as long as a
host holds is cut, before a character that is only half there if the line is UTF-8 up to it.

`line_texts_iff`: the events of a run are numbered from 0 on and hold the lines of each stream in
their order, however the bytes came in. **The parts of a line make up its text exactly if no cut
behind a sequence that is no character splits one** (`KeepsCharacters`).
-/

namespace Nibrunner.Cron

open Bytes GuestLogs Utf8

def maxLineBytes : ℕ := 16384

structure CronRunOutput where
  run : ScheduledRun
  sourceId : String
  jobId : String
  runId : String
  /-- A `u64` of the source, which would overflow at the event after 2^64. -/
  sequence : ℕ
  stdout : List UInt8
  stderr : List UInt8
deriving DecidableEq

/-- How much of a line that is too long is handed over. -/
def lineCut (held : List UInt8) : ℕ :=
  match fromUtf8Error? held with
  | some ⟨validUpTo, none⟩ => validUpTo
  | _ => held.length

/-- The texts that are handed over up to a byte, and what is held behind it. -/
def takeByte (taken : List String × List UInt8) (byte : UInt8) : List String × List UInt8 :=
  if byte = newline then (taken.1 ++ [fromUtf8Lossy taken.2], [])
  else
    let held := taken.2 ++ [byte]
    if maxLineBytes ≤ held.length then
      let cut := lineCut held
      (taken.1 ++ [fromUtf8Lossy (held.take cut)], held.drop cut)
    else (taken.1, held)

def takeBytes (held bytes : List UInt8) : List String × List UInt8 :=
  bytes.foldl takeByte ([], held)

/-- The last text of what is held. -/
def lastText (held : List UInt8) : List String := if held = [] then [] else [fromUtf8Lossy held]

namespace CronRunOutput

section Events

variable (cronJobId : JobKey → CronJobDefinition → String)

/-- The identifiers of a source and of a run are drawn anew for each. -/
def new (run : ScheduledRun) (sourceId runId : String) : CronRunOutput where
  run := run
  sourceId := sourceId
  jobId := cronJobId run.key run.job
  runId := runId
  sequence := 0
  stdout := []
  stderr := []

def held (s : CronRunOutput) : TenantLogStream → List UInt8
  | .stdout => s.stdout
  | .stderr => s.stderr

def hold (s : CronRunOutput) (stream : TenantLogStream) (bytes : List UInt8) : CronRunOutput :=
  match stream with
  | .stdout => { s with stdout := bytes }
  | .stderr => { s with stderr := bytes }

-- what the clock reads when the event of a number is made
variable (clock : ℕ → Timestamp)

def event (s : CronRunOutput) (stream : TenantLogStream) (text : String) :
    CronRunOutput × TenantLogEvent :=
  ({ s with sequence := s.sequence + 1 }, {
    appId := s.run.key.appId
    deploymentId := s.run.key.deploymentId
    sourceId := s.sourceId
    sequence := s.sequence
    observedAt := clock s.sequence
    body := .cronData stream text s.jobId s.runId })

def eventsFor (stream : TenantLogStream) :
    CronRunOutput → List String → CronRunOutput × List TenantLogEvent
  | s, [] => (s, [])
  | s, text :: texts =>
    let (s, event) := s.event clock stream text
    let (s, events) := s.eventsFor stream texts
    (s, event :: events)

def receive (s : CronRunOutput) (stream : TenantLogStream) (bytes : List UInt8) :
    CronRunOutput × List TenantLogEvent :=
  let (lines, held) := takeBytes (s.held stream) bytes
  (s.hold stream held).eventsFor clock stream lines

def closeStream (s : CronRunOutput) (stream : TenantLogStream) :
    CronRunOutput × List TenantLogEvent :=
  let bytes := s.held stream
  let s := s.hold stream []
  if bytes = [] then (s, [])
  else
    let (s, event) := s.event clock stream (fromUtf8Lossy bytes)
    (s, [event])

def close (s : CronRunOutput) : CronRunOutput × List TenantLogEvent :=
  let (s, stdout) := s.closeStream clock .stdout
  let (s, stderr) := s.closeStream clock .stderr
  (s, stdout ++ stderr)

/-- The events of some frames of a guest and of their end. -/
def eventsOf : CronRunOutput → List (TenantLogStream × List UInt8) → List TenantLogEvent
  | s, [] => (s.close clock).2
  | s, (stream, bytes) :: frames =>
    let (s, events) := s.receive clock stream bytes
    events ++ s.eventsOf frames

end Events

/-! ### The events of a stream -/

/-- The events that an output made on its way to another are numbered on from where it was. -/
structure Numbers (s : CronRunOutput) (events : List TenantLogEvent) (s' : CronRunOutput) :
    Prop where
  numbered : TenantLogEvent.Numbered s.sequence events
  sequence : s'.sequence = s.sequence + events.length

theorem Numbers.append {s s' s'' : CronRunOutput} {a b : List TenantLogEvent}
    (ha : Numbers s a s') (hb : Numbers s' b s'') : Numbers s (a ++ b) s'' where
  numbered := ha.numbered.append (ha.sequence ▸ hb.numbered)
  sequence := by rw [hb.sequence, ha.sequence, List.length_append, Nat.add_assoc]

section Spec

variable (clock : ℕ → Timestamp) (s : CronRunOutput) (stream : TenantLogStream)

@[simp] theorem held_hold (bytes : List UInt8) (other : TenantLogStream) :
    (s.hold stream bytes).held other = if stream = other then bytes else s.held other := by
  cases stream <;> cases other <;> rfl

@[simp] theorem sequence_hold (bytes : List UInt8) :
    (s.hold stream bytes).sequence = s.sequence := by
  cases stream <;> rfl

@[simp] theorem held_event (text : String) (other : TenantLogStream) :
    (s.event clock stream text).1.held other = s.held other := by
  cases other <;> rfl

theorem event_numbers (text : String) :
    Numbers s [(s.event clock stream text).2] (s.event clock stream text).1 :=
  ⟨rfl, rfl⟩

theorem texts_event (text : String) (other : TenantLogStream) :
    TenantLogEvent.texts other [(s.event clock stream text).2] =
      if stream = other then [text] else [] := by
  rw [TenantLogEvent.texts, List.map_singleton, event, TenantLogBody.texts, List.filterMap_cons,
    TenantLogBody.text?]
  by_cases h : stream = other <;> simp [h]

/-- Texts become events of the stream, and nothing is held of them. -/
theorem eventsFor_spec (texts : List String) :
    Numbers s (s.eventsFor clock stream texts).2 (s.eventsFor clock stream texts).1 ∧
      ∀ other, (s.eventsFor clock stream texts).1.held other = s.held other ∧
        TenantLogEvent.texts other (s.eventsFor clock stream texts).2 =
          if stream = other then texts else [] := by
  induction texts generalizing s with
  | nil =>
    refine ⟨⟨rfl, rfl⟩, fun other => ⟨rfl, ?_⟩⟩
    split
    · rfl
    · rfl
  | cons text texts ih =>
    obtain ⟨hnumbers, hstreams⟩ := ih (s.event clock stream text).1
    rw [eventsFor]
    refine ⟨(s.event_numbers clock stream text).append hnumbers, fun other => ?_⟩
    obtain ⟨hheld, htexts⟩ := hstreams other
    refine ⟨hheld.trans (s.held_event clock stream text other), ?_⟩
    have hcons := TenantLogEvent.texts_append other [(s.event clock stream text).2]
      ((s.event clock stream text).1.eventsFor clock stream texts).2
    rw [texts_event, htexts] at hcons
    refine hcons.trans ?_
    split
    · rfl
    · rfl

theorem receive_spec (bytes : List UInt8) :
    Numbers s (s.receive clock stream bytes).2 (s.receive clock stream bytes).1 ∧
      ∀ other, let taken := takeBytes (s.held other) (if stream = other then bytes else [])
        (s.receive clock stream bytes).1.held other = taken.2 ∧
          TenantLogEvent.texts other (s.receive clock stream bytes).2 = taken.1 := by
  obtain ⟨hnumbers, hstreams⟩ := eventsFor_spec clock
    (s.hold stream (takeBytes (s.held stream) bytes).2) stream (takeBytes (s.held stream) bytes).1
  obtain ⟨hnumbered, hsequence⟩ := hnumbers
  rw [sequence_hold] at hnumbered hsequence
  refine ⟨⟨hnumbered, hsequence⟩, fun other => ?_⟩
  · obtain ⟨hheld, htexts⟩ := hstreams other
    rw [held_hold] at hheld
    by_cases h : stream = other
    · subst h
      rw [if_pos rfl] at hheld htexts ⊢
      exact ⟨hheld, htexts⟩
    · rw [if_neg h] at hheld htexts ⊢
      exact ⟨hheld, htexts⟩

theorem closeStream_spec :
    Numbers s (s.closeStream clock stream).2 (s.closeStream clock stream).1 ∧
      ∀ other, (s.closeStream clock stream).1.held other =
          (if stream = other then [] else s.held other) ∧
        TenantLogEvent.texts other (s.closeStream clock stream).2 =
          if stream = other then lastText (s.held other) else [] := by
  rw [closeStream]
  by_cases hheld : s.held stream = []
  · rw [if_pos hheld]
    refine ⟨⟨rfl, by simp⟩, fun other => ⟨by simp, ?_⟩⟩
    by_cases h : stream = other
    · subst h
      rw [if_pos rfl, lastText, if_pos hheld]
      rfl
    · rw [if_neg h]
      rfl
  · rw [if_neg hheld]
    obtain ⟨hnumbered, hsequence⟩ :=
      event_numbers clock (s.hold stream []) stream (fromUtf8Lossy (s.held stream))
    rw [sequence_hold] at hnumbered hsequence
    refine ⟨⟨hnumbered, hsequence⟩, fun other => ⟨by simp, (texts_event _ _ _ _ _).trans ?_⟩⟩
    by_cases h : stream = other
    · subst h
      rw [lastText, if_neg hheld]
    · rw [if_neg h, if_neg h]

theorem close_spec :
    TenantLogEvent.Numbered s.sequence (s.close clock).2 ∧
      ∀ other, TenantLogEvent.texts other (s.close clock).2 = lastText (s.held other) := by
  obtain ⟨hout, hstdout⟩ := s.closeStream_spec clock .stdout
  obtain ⟨herr, hstderr⟩ := (s.closeStream clock .stdout).1.closeStream_spec clock .stderr
  rw [close]
  refine ⟨(hout.append herr).numbered, fun other => ?_⟩
  rw [TenantLogEvent.texts_append, (hstdout other).2, (hstderr other).2, (hstdout other).1]
  cases other
  · simp
  · simp

end Spec

end CronRunOutput

/-! ### The texts of a line -/

section Lines

variable {held line : List UInt8}

theorem takeByte_eq (texts : List String) (held : List UInt8) (byte : UInt8) :
    takeByte (texts, held) byte =
      (texts ++ (takeByte ([], held) byte).1, (takeByte ([], held) byte).2) := by
  simp only [takeByte]
  split
  · rfl
  · split
    · rfl
    · rw [List.append_nil]

theorem foldl_takeByte (texts : List String) (held bytes : List UInt8) :
    bytes.foldl takeByte (texts, held) =
      (texts ++ (takeBytes held bytes).1, (takeBytes held bytes).2) := by
  induction bytes generalizing texts held with
  | nil => rw [List.foldl_nil, takeBytes, List.foldl_nil, List.append_nil]
  | cons byte bytes ih =>
    have hcons : takeBytes held (byte :: bytes) =
        ((takeByte ([], held) byte).1 ++ (takeBytes (takeByte ([], held) byte).2 bytes).1,
          (takeBytes (takeByte ([], held) byte).2 bytes).2) := ih _ _
    rw [List.foldl_cons, takeByte_eq, ih, hcons, List.append_assoc]

theorem takeBytes_append (held a b : List UInt8) :
    takeBytes held (a ++ b) = ((takeBytes held a).1 ++ (takeBytes (takeBytes held a).2 b).1,
      (takeBytes (takeBytes held a).2 b).2) := by
  rw [takeBytes, List.foldl_append]
  exact foldl_takeByte _ _ _

theorem takeBytes_cons (held : List UInt8) (byte : UInt8) (bytes : List UInt8) :
    takeBytes held (byte :: bytes) =
      ((takeByte ([], held) byte).1 ++ (takeBytes (takeByte ([], held) byte).2 bytes).1,
        (takeBytes (takeByte ([], held) byte).2 bytes).2) :=
  takeBytes_append held [byte] bytes

/-- The texts of a line behind which there is another one. -/
def endedLine (line : List UInt8) : List String :=
  (takeBytes [] line).1 ++ [fromUtf8Lossy (takeBytes [] line).2]

/-- The texts of the line at the end. -/
def lastLine (line : List UInt8) : List String :=
  (takeBytes [] line).1 ++ lastText (takeBytes [] line).2

def textsOfLines : List (List UInt8) → List String
  | [] => []
  | [line] => lastLine line
  | line :: lines => endedLine line ++ textsOfLines lines

theorem textsOfLines_cons {lines : List (List UInt8)} (h : lines ≠ []) (line : List UInt8) :
    textsOfLines (line :: lines) = endedLine line ++ textsOfLines lines := by
  cases lines with
  | nil => exact absurd rfl h
  | cons next lines => rfl

/-- The texts of a stream are those of its lines. -/
theorem lastLine_eq (bytes : List UInt8) :
    lastLine bytes = textsOfLines (bytes.splitOn newline) := by
  induction bytes using TextLines.splitOn_induction newline with
  | last line hline => rw [List.splitOn_eq_singleton hline, textsOfLines]
  | parted line rest hline ih =>
    rw [List.splitOn_append_cons_self_of_not_mem hline,
      textsOfLines_cons (List.splitOn_ne_nil _ _), ← ih, lastLine, takeBytes_append,
      takeBytes_cons, takeByte, if_pos rfl, lastLine, endedLine]
    simp only [List.append_assoc, List.nil_append]

/-- There is a sequence before the end that is no character. -/
def hasInvalid (held : List UInt8) : Bool :=
  (fromUtf8Error? held).any fun error => error.errorLen.isSome

/-- No cut of the line behind such a sequence splits one. -/
def KeepsCharacters : List UInt8 → List UInt8 → Prop
  | _, [] => True
  | held, byte :: rest =>
    let held := held ++ [byte]
    if maxLineBytes ≤ held.length then
      if hasInvalid held then ¬Splits held rest ∧ KeepsCharacters [] rest
      else KeepsCharacters (unfinishedEnd held) rest
    else KeepsCharacters held rest

/-- A line is cut at its end, or before the unfinished sequence where all else is UTF-8. -/
theorem lineCut_spec (held : List UInt8) :
    if hasInvalid held then lineCut held = held.length
    else ∃ whole, held = whole ++ unfinishedEnd held ∧ lineCut held = whole.length := by
  rw [lineCut, hasInvalid]
  rcases fromUtf8Error?_cases held with ⟨herror, hend⟩ | ⟨valid, hvalid, -, herror⟩ |
    ⟨valid, rest, n, -, -, herror, -⟩
  · rw [herror, hend]
    exact ⟨held, (List.append_nil held).symm, rfl⟩
  · rw [herror]
    exact ⟨valid, hvalid, rfl⟩
  · rw [herror]
    rfl

/-- The characters of some bytes of a line, cut as they are held. -/
def cutChars (held line : List UInt8) : List Char :=
  (takeBytes held line).1.flatMap String.toList ++ lossyChars (takeBytes held line).2

theorem cutChars_cons {byte : UInt8} (h : byte ≠ newline) (held line : List UInt8) :
    cutChars held (byte :: line) =
      if maxLineBytes ≤ (held ++ [byte]).length then
        lossyChars ((held ++ [byte]).take (lineCut (held ++ [byte]))) ++
          cutChars ((held ++ [byte]).drop (lineCut (held ++ [byte]))) line
      else cutChars (held ++ [byte]) line := by
  rw [cutChars, takeBytes_cons, takeByte, if_neg h]
  dsimp only
  split
  · rw [List.nil_append, List.flatMap_append, List.flatMap_singleton, fromUtf8Lossy,
      String.toList_ofList, List.append_assoc, cutChars]
  · rw [List.nil_append, cutChars]

/-- The parts of a line have the characters of the line, or more where a cut splits one. -/
theorem cutChars_cases (hline : newline ∉ line) :
    KeepsCharacters held line ∧ cutChars held line = lossyChars (held ++ line) ∨
      ¬KeepsCharacters held line ∧
        (lossyChars (held ++ line)).length < (cutChars held line).length := by
  induction line generalizing held with
  | nil =>
    refine .inl ⟨trivial, ?_⟩
    rw [List.append_nil]
    rfl
  | cons byte line ih =>
    rw [List.mem_cons, not_or] at hline
    have ih := fun held => @ih held hline.2
    rw [cutChars_cons (Ne.symm hline.1), KeepsCharacters,
      List.append_cons held byte line]
    generalize held ++ [byte] = held
    split
    · have hcut := lineCut_spec held
      by_cases hinvalid : hasInvalid held
      · rw [if_pos hinvalid] at hcut ⊢
        rw [hcut, List.take_length, List.drop_length, List.length_append]
        have hle := length_lossyChars_append_le held line
        by_cases hsplits : Splits held line
        · -- the character that the cut splits is never made up for
          refine .inr ⟨fun h => h.1 hsplits, ?_⟩
          have hlt := length_lossyChars_lt hsplits
          rcases ih [] with ⟨-, hrest⟩ | ⟨-, hrest⟩
          · rw [hrest]
            exact hlt
          · rw [List.nil_append] at hrest
            omega
        · rw [lossyChars_append hsplits, List.length_append]
          rcases ih [] with ⟨hkeeps, hrest⟩ | ⟨hloses, hrest⟩
          · exact .inl ⟨⟨hsplits, hkeeps⟩, by rw [hrest, List.nil_append]⟩
          · exact .inr ⟨fun h => hloses h.2, Nat.add_lt_add_left hrest _⟩
      · rw [if_neg hinvalid] at hcut ⊢
        obtain ⟨whole, hwhole, hlength⟩ := hcut
        have htake : held.take (lineCut held) = whole := by
          rw [hlength, hwhole, List.take_left]
        have hdrop : held.drop (lineCut held) = unfinishedEnd held := by
          rw [hlength]
          conv_lhs => rw [hwhole]
          exact List.drop_left
        have hchars : lossyChars (held ++ line) =
            lossyChars whole ++ lossyChars (unfinishedEnd held ++ line) := by
          rw [← lossyChars_append (not_splits_unfinishedEnd hwhole line), ← List.append_assoc,
            ← hwhole]
        rw [htake, hdrop, hchars, List.length_append, List.length_append]
        rcases ih (unfinishedEnd held) with ⟨hkeeps, hrest⟩ | ⟨hloses, hrest⟩
        · exact .inl ⟨hkeeps, by rw [hrest]⟩
        · exact .inr ⟨hloses, Nat.add_lt_add_left hrest _⟩
    · exact ih held

/-- A line is what its texts make up exactly if no cut splits a character. -/
theorem cutChars_eq_iff (hline : newline ∉ line) :
    cutChars [] line = lossyChars line ↔ KeepsCharacters [] line := by
  rcases @cutChars_cases [] line hline with ⟨hkeeps, heq⟩ | ⟨hloses, hlt⟩
  · exact iff_of_true heq hkeeps
  · exact iff_of_false (fun heq => absurd (congrArg List.length heq) hlt.ne') hloses

theorem join_endedLine (line : List UInt8) :
    String.join (endedLine line) = String.ofList (cutChars [] line) := by
  apply String.toList_inj.mp
  rw [String.toList_join, endedLine, List.flatMap_append, List.flatMap_singleton, fromUtf8Lossy,
    String.toList_ofList, String.toList_ofList, cutChars]

theorem join_lastLine (line : List UInt8) :
    String.join (lastLine line) = String.ofList (cutChars [] line) := by
  rw [← join_endedLine, lastLine, endedLine, lastText, String.join_append, String.join_append]
  split
  · rename_i hnil
    rw [hnil]
    rfl
  · rfl

end Lines

/-! ### The texts of a run -/

namespace CronRunOutput

variable (clock : ℕ → Timestamp)

/-- What the frames hold of a stream. -/
def bytesOf (stream : TenantLogStream) (frames : List (TenantLogStream × List UInt8)) :
    List UInt8 :=
  frames.flatMap fun frame => if frame.1 = stream then frame.2 else []

theorem eventsOf_spec (s : CronRunOutput) (frames : List (TenantLogStream × List UInt8)) :
    TenantLogEvent.Numbered s.sequence (s.eventsOf clock frames) ∧
      ∀ stream, TenantLogEvent.texts stream (s.eventsOf clock frames) =
        (takeBytes (s.held stream) (bytesOf stream frames)).1 ++
          lastText (takeBytes (s.held stream) (bytesOf stream frames)).2 := by
  induction frames generalizing s with
  | nil => exact s.close_spec clock
  | cons frame frames ih =>
    obtain ⟨hnumbers, hstreams⟩ := s.receive_spec clock frame.1 frame.2
    obtain ⟨hnumbered, htexts⟩ := ih (s.receive clock frame.1 frame.2).1
    rw [eventsOf]
    refine ⟨hnumbers.numbered.append (hnumbers.sequence ▸ hnumbered), fun stream => ?_⟩
    rw [bytesOf, List.flatMap_cons, takeBytes_append, TenantLogEvent.texts_append, htexts,
      (hstreams stream).1, (hstreams stream).2, List.append_assoc, bytesOf]

end CronRunOutput

/-- The events of a run are numbered from 0 on, and those of a stream hold its lines in their order,
each cut as if it was all there is; a line is what its texts make up exactly if no cut splits a
character behind a sequence that is none. -/
theorem line_texts_iff (cronJobId : JobKey → CronJobDefinition → String) (clock : ℕ → Timestamp)
    (run : ScheduledRun) (sourceId runId : String)
    (frames : List (TenantLogStream × List UInt8)) :
    let events := (CronRunOutput.new cronJobId run sourceId runId).eventsOf clock frames
    events.map (·.sequence) = List.range events.length ∧
      ∀ stream, let lines := (CronRunOutput.bytesOf stream frames).splitOn newline
        TenantLogEvent.texts stream events = textsOfLines lines ∧
          ∀ line ∈ lines,
            (String.join (endedLine line) = fromUtf8Lossy line ↔ KeepsCharacters [] line) ∧
            (String.join (lastLine line) = fromUtf8Lossy line ↔ KeepsCharacters [] line) := by
  intro events
  obtain ⟨hnumbered, htexts⟩ :=
    (CronRunOutput.new cronJobId run sourceId runId).eventsOf_spec clock frames
  refine ⟨?_, fun stream => ⟨?_, fun line hline => ?_⟩⟩
  · rw [List.range_eq_range']
    exact hnumbered
  · rw [← lastLine_eq, lastLine]
    cases stream
    · exact htexts .stdout
    · exact htexts .stderr
  · have hfree : newline ∉ line := TextLines.notMem_of_mem_splitOn hline
    rw [join_endedLine, join_lastLine, fromUtf8Lossy, String.ofList_inj]
    exact ⟨cutChars_eq_iff hfree, cutChars_eq_iff hfree⟩

/-! ### A character that is cut -/

private theorem head_ascii (rest : List UInt8) : head (0x61 :: rest) = .ended 1 true := by
  rw [head, if_pos (by decide)]

private theorem head_ff (rest : List UInt8) : head (0xff :: rest) = .ended 1 false := by
  rw [head, if_neg (by decide), show wanted 0xff = none by decide]

private theorem unfinishedEnd_replicate (n : ℕ) (rest : List UInt8) :
    unfinishedEnd (List.replicate n 0x61 ++ rest) = unfinishedEnd rest := by
  induction n with
  | zero => rfl
  | succ n ih =>
    rw [List.replicate_succ, List.cons_append, unfinishedEnd_of_ended (head_ascii _)]
    exact ih

/-- A line that is short of the bound is held as it is. -/
theorem keepsCharacters_append {held line : List UInt8}
    (h : (held ++ line).length < maxLineBytes) (rest : List UInt8) :
    KeepsCharacters held (line ++ rest) ↔ KeepsCharacters (held ++ line) rest := by
  induction line generalizing held with
  | nil => rw [List.nil_append, List.append_nil]
  | cons byte line ih =>
    have hshort : ¬maxLineBytes ≤ (held ++ [byte]).length := by
      rw [List.length_append, List.length_cons] at h
      rw [List.length_append, List.length_singleton]
      omega
    rw [List.append_cons] at h ⊢
    rw [List.cons_append, KeepsCharacters, if_neg hshort]
    exact ih h

/-- An invalid byte, and an é whose first byte is the last that is held. -/
private def longLine : List UInt8 := 0xff :: (List.replicate 16382 0x61 ++ [0xc3, 0xa9])

private theorem not_keepsCharacters_longLine : ¬KeepsCharacters [] longLine := by
  have hlength : (0xff :: List.replicate 16382 (0x61 : UInt8)).length = 16383 := by
    rw [List.length_cons, List.length_replicate]
  have hshort : ([] ++ 0xff :: List.replicate 16382 (0x61 : UInt8)).length < maxLineBytes := by
    rw [List.nil_append, hlength]
    decide
  have hheld := keepsCharacters_append hshort [0xc3, 0xa9]
  have hend : unfinishedEnd ((0xff :: List.replicate 16382 0x61) ++ [0xc3]) = [0xc3] := by
    rw [List.cons_append, unfinishedEnd_of_ended (head_ff _), List.drop_one, List.tail_cons,
      unfinishedEnd_replicate, unfinishedEnd_of_unfinished (by decide)]
  have hinvalid : hasInvalid ((0xff :: List.replicate 16382 0x61) ++ [0xc3]) := by
    rw [hasInvalid, List.cons_append, fromUtf8Error?_of_invalid (head_ff _)]
    rfl
  rw [longLine, ← List.cons_append, hheld, List.nil_append, KeepsCharacters, if_pos,
    if_pos hinvalid]
  · rintro ⟨hsplits, -⟩
    rw [Splits, hend] at hsplits
    exact hsplits (by decide)
  · rw [List.length_append, hlength]
    decide

private def echoRun : ScheduledRun where
  key := ⟨⟨"app-one"⟩, ⟨"deployment-one"⟩, 0⟩
  job := {
    schedule := ⟨"* * * * *", by decide, by decide⟩
    command := ⟨"echo", by decide, by decide, by decide⟩
    environment := none }
  scheduledAt := 0

/-- An é behind an invalid byte is two replacement characters if the cut falls inside of it. -/
theorem splits_character :
    String.join (TenantLogEvent.texts .stdout
      ((CronRunOutput.new (fun _ _ => "cron-one") echoRun "source-one" "run-one").eventsOf
        (fun _ => ⟨"2026-01-01T00:00:00.000Z"⟩) [(.stdout, longLine ++ [newline])])) ≠
      fromUtf8Lossy longLine := by
  have hfree : newline ∉ longLine := by
    rw [longLine, List.mem_cons, List.mem_append, List.mem_replicate]
    decide
  have hbytes : CronRunOutput.bytesOf .stdout [(.stdout, longLine ++ [newline])] =
      longLine ++ newline :: [] := by
    rw [CronRunOutput.bytesOf, List.flatMap_singleton, if_pos rfl]
  have htexts := (CronRunOutput.eventsOf_spec (fun _ => ⟨"2026-01-01T00:00:00.000Z"⟩)
    (CronRunOutput.new (fun _ _ => "cron-one") echoRun "source-one" "run-one")
    [(.stdout, longLine ++ [newline])]).2 .stdout
  -- the second line is empty and has no text
  have hlines : lastLine (longLine ++ newline :: []) = endedLine longLine ++ lastLine [] := by
    rw [lastLine_eq, List.splitOn_append_cons_self_of_not_mem hfree, List.splitOn_nil]
    rfl
  have hempty : lastLine [] = [] := rfl
  rw [hbytes] at htexts
  rw [htexts.trans hlines, hempty, List.append_nil, join_endedLine, fromUtf8Lossy, Ne,
    String.ofList_inj, cutChars_eq_iff hfree]
  exact not_keepsCharacters_longLine

end Nibrunner.Cron
