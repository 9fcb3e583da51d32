import Nibrunner.Cron.CrontabLines
import Nibrunner.ForStd.KeyedSum
import Nibrunner.Guest.CronEnvironment
import Nibrunner.Guest.CronExecutionCodec

/-!
# What a guest is asked to run

A job of a crontab becomes a request to its guest. The entries of the request are written in
different lines of the text and so take no more room than it has: the request is never too large
(`encodeRequest_of_job`). The guest reads the same command and entries back, and sets them last in
the environment of the command: `runs_as_written`.
-/

namespace Nibrunner.Cron

open Except Std CronExecution

/-! ### Sizes of lines -/

theorem flatten_splitInclusive (text : List Char) : (splitInclusive text).flatten = text := by
  induction text with
  | nil => rfl
  | cons c rest ih =>
    rw [splitInclusive]
    split
    · rw [List.flatten_cons, ih]
      rfl
    · split
      · next hrest =>
        rw [hrest] at ih
        rw [← ih]
        rfl
      · next piece pieces hrest =>
        rw [hrest, List.flatten_cons] at ih
        rw [List.flatten_cons, List.cons_append, ih]

theorem stripLineEnd_sublist (piece : List Char) : (stripLineEnd piece).Sublist piece := by
  rw [stripLineEnd]
  split
  · dsimp only
    split
    · exact (List.dropLast_sublist _).trans (List.dropLast_sublist _)
    · exact List.dropLast_sublist _
  · exact List.Sublist.refl _

/-- The lines of a text have no more bytes than the text. -/
theorem size_crontabLines (text : String) :
    ((crontabLines text).map Bytes.size).sum ≤ text.utf8ByteSize := by
  have hpieces (pieces : List (List Char)) :
      ((pieces.map fun piece => (stripLineEnd piece).dropWhile crontabWhitespace).map
        Bytes.size).sum ≤ Bytes.size pieces.flatten := by
    induction pieces with
    | nil => exact Nat.le_refl _
    | cons piece pieces ih =>
      have hline := Bytes.size_le_of_sublist
        ((List.dropWhile_sublist crontabWhitespace).trans (stripLineEnd_sublist piece))
      simp only [List.map_cons, List.sum_cons, List.flatten_cons, Bytes.size_append] at ih ⊢
      omega
  rw [Bytes.utf8ByteSize_eq, ← flatten_splitInclusive text.toList]
  exact hpieces _

theorem mem_of_mem_crontabLines {text : String} {line : List Char} (h : line ∈ crontabLines text)
    {c : Char} (hc : c ∈ line) : c ∈ text.toList := by
  obtain ⟨piece, hpiece, rfl⟩ := List.mem_map.mp h
  rw [← flatten_splitInclusive text.toList]
  exact List.mem_flatten.mpr ⟨piece, hpiece, (stripLineEnd_sublist piece).subset
    ((List.dropWhile_sublist _).subset hc)⟩

theorem trim_sublist (p : Char → Bool) (text : List Char) : (trim p text).Sublist text :=
  (List.rdropWhile_prefix p _).sublist.trans (List.dropWhile_sublist p)

/-- What a line assigns is written in it. -/
theorem Assigns.sublist {line : List Char} {name value : String} (h : Assigns line name value) :
    (name.toList ++ '=' :: value.toList).Sublist line := by
  obtain ⟨-, written, ⟨-, blanks, -, rfl⟩, hunquotes⟩ := h
  have hvalue : value.toList.Sublist written := by
    rcases hunquotes with ⟨quote, -, htrim⟩ | ⟨htrim, -⟩
    · refine List.Sublist.trans ?_ (htrim ▸ trim_sublist crontabWhitespace written)
      exact (List.sublist_append_left _ _).trans (List.sublist_cons_self _ _)
    · exact htrim ▸ trim_sublist crontabWhitespace written
  exact (List.sublist_append_left _ _).append (hvalue.cons_cons '=')

/-! ### Requests -/

namespace GuestCronExecution

/-- An entry of a guest's environment. -/
def entryText (entry : String × TenantValue) : String := entry.1 ++ "=" ++ entry.2.text

/-- What the guest is asked to run for a job. -/
def request (job : CronJobDefinition) : ExecutionRequest where
  command := job.command.text
  environment := job.environment.elim [] fun environment => environment.entries.map entryText

end GuestCronExecution

open GuestCronExecution

theorem toList_entryText (entry : String × TenantValue) :
    (entryText entry).toList = entry.1.toList ++ '=' :: entry.2.text.toList := by
  rw [entryText, String.toList_append, String.toList_append, List.append_assoc]
  rfl

/-- The sites of jobs are lines of the text, each below the lines above it. -/
theorem exists_of_mem_jobSites {above lines : List (List Char)}
    {site : List (List Char) × List Char} (h : site ∈ jobSites above lines) :
    ∃ after, above ++ lines = site.1 ++ site.2 :: after := by
  induction lines generalizing above with
  | nil => cases h
  | cons line lines ih =>
    have hrest (h : site ∈ jobSites (above ++ [line]) lines) :
        ∃ after, above ++ line :: lines = site.1 ++ site.2 :: after := by
      obtain ⟨after, hafter⟩ := ih h
      exact ⟨after, by rw [← hafter, List.append_assoc]; rfl⟩
    rw [jobSites] at h
    split at h
    · rcases List.mem_cons.mp h with rfl | h
      · exact ⟨lines, rfl⟩
      · exact hrest h
    · exact hrest h

private theorem exists_of_mem_right {α β : Type} {R : α → β → Prop} {l : List α} {l' : List β}
    (h : List.Forall₂ R l l') {b : β} (hb : b ∈ l') : ∃ a ∈ l, R a b := by
  induction h with
  | nil => cases hb
  | cons hab _ ih =>
    rcases List.mem_cons.mp hb with rfl | hb
    · exact ⟨_, List.mem_cons_self, hab⟩
    · obtain ⟨a, ha, hR⟩ := ih hb
      exact ⟨a, List.mem_cons_of_mem _ ha, hR⟩

/-- Every job of an accepted text is written in one of its lines. -/
theorem exists_written {scheduler : Scheduler} {text : String} {instant : ℤ}
    {parsed : ParsedCrontab} (h : parseCrontab scheduler text instant = .ok parsed)
    {job : CronJobDefinition} (hjob : job ∈ parsed.jobs) :
    ∃ above line after, crontabLines text = above ++ line :: after ∧ WrittenAs above line job := by
  obtain ⟨⟨above, line⟩, hsite, hwritten⟩ := exists_of_mem_right (parseCrontab_lines h) hjob
  obtain ⟨after, hlines⟩ := exists_of_mem_jobSites hsite
  exact ⟨above, line, after, hlines, hwritten⟩

/-- What a job's variables take is no more than the lines above it do. -/
theorem size_entries_le {above : List (List Char)} {environment : TenantEnvironment}
    (h : ∀ entry ∈ environment.entries, LastAssigned above entry.1 entry.2.text) :
    ((environment.entries.map fun entry => (entryText entry).utf8ByteSize)).sum ≤
      (above.map Bytes.size).sum := by
  refine KeyedSum.sum_le_sum_of_keyed (fun entry => some entry.1.toList)
    (fun line => (environmentAssignment line).map Prod.fst) _ _ ?_ fun entry hentry => ?_
  · have hinjective : Function.Injective fun name : String => some name.toList :=
      fun a b h => String.toList_inj.mp (Option.some.inj h)
    rw [← Function.comp_def (fun name : String => some name.toList) Prod.fst, ← List.map_map]
    exact environment.nodup_names.map hinjective
  · obtain ⟨before, line, after, rfl, hassigns, -⟩ := h entry hentry
    obtain ⟨-, written, hfound, -⟩ := (assigns_iff 0).mp hassigns
    refine ⟨line, by simp, by rw [hfound]; rfl, ?_⟩
    rw [Bytes.utf8ByteSize_eq, toList_entryText]
    exact Bytes.size_le_of_sublist hassigns.sublist

private theorem toNat_lt_of_nameCharacter {c : Char} (h : isNameCharacter c = true) :
    c.toNat < 128 := by
  change (decide ('A' ≤ c ∧ c ≤ 'Z') || (decide ('a' ≤ c) && decide (c ≤ 'z')) ||
    (decide ('0' ≤ c) && decide (c ≤ '9')) || decide (c = '_')) = true at h
  simp only [Bool.or_eq_true, Bool.and_eq_true, decide_eq_true_eq] at h
  rcases h with ((⟨-, h⟩ | ⟨-, h⟩) | ⟨-, h⟩) | rfl
  · exact Nat.lt_of_le_of_lt (UInt32.le_iff_toNat_le.mp h) (by decide)
  · exact Nat.lt_of_le_of_lt (UInt32.le_iff_toNat_le.mp h) (by decide)
  · exact Nat.lt_of_le_of_lt (UInt32.le_iff_toNat_le.mp h) (by decide)
  · decide

/-- The characters of names are the bytes of names. -/
private theorem byte_of_nameCharacter {c : Char} (h : isNameCharacter c = true) :
    (isAsciiAlphabetic c.val.toUInt8 || c.val.toUInt8 == 95) = (c.isAlpha || c = '_') ∧
      (isAsciiAlphabetic c.val.toUInt8 || c.val.toUInt8 == 95 || isAsciiDigit c.val.toUInt8) =
        true := by
  have hall : ∀ n < 128, isNameCharacter (Char.ofNat n) = true →
      (isAsciiAlphabetic (Char.ofNat n).val.toUInt8 || (Char.ofNat n).val.toUInt8 == 95) =
          ((Char.ofNat n).isAlpha || Char.ofNat n = '_') ∧
        (isAsciiAlphabetic (Char.ofNat n).val.toUInt8 || (Char.ofNat n).val.toUInt8 == 95 ||
          isAsciiDigit (Char.ofNat n).val.toUInt8) = true := by
    decide +kernel
  have hc := hall c.toNat (toNat_lt_of_nameCharacter h)
  rw [Char.ofNat_toNat] at hc
  exact hc h

/-- A variable of a tenant is an entry as the protocol has it. -/
theorem environmentEntry_entryText {entry : String × TenantValue}
    (hname : isEnvironmentName entry.1 = true)
    (hnul : Char.ofNat 0 ∉ entry.2.text.toList) : environmentEntry (entryText entry) = true := by
  have hcharacters {c : Char} (hc : c ∈ entry.1.toList) := isNameCharacter_of_mem hname hc
  have hequals : '=' ∉ entry.1.toList := fun h => absurd (hcharacters h) (by decide)
  have hname' : Char.ofNat 0 ∉ entry.1.toList := fun h => absurd (hcharacters h) (by decide)
  rw [environmentEntry, toList_entryText, TextLines.splitOnce_append hequals]
  dsimp only
  rw [Bytes.ofText_of_ascii fun c hc => toNat_lt_of_nameCharacter (hcharacters hc)]
  rw [isEnvironmentName, Bool.and_eq_true] at hname
  obtain ⟨-, hform⟩ := hname
  generalize entry.1.toList = name at *
  cases name with
  | nil => cases hform
  | cons first rest =>
    rw [Bool.and_eq_true] at hform
    have hfirst := (byte_of_nameCharacter (hcharacters List.mem_cons_self)).1
    rw [hform.1] at hfirst
    rw [Bool.and_eq_true, Bool.and_eq_true, Bool.not_eq_true', List.contains_eq_mem,
      decide_eq_false_iff_not, decide_eq_true_eq, List.all_eq_true]
    refine ⟨⟨?_, List.cons_ne_nil _ _⟩, ?_⟩
    · intro hmem
      rcases List.mem_append.mp hmem with hmem | hmem
      · exact hname' hmem
      · exact (List.mem_cons.mp hmem).elim (by decide) hnul
    · rintro ⟨byte, i⟩ hmem
      have hbyte := List.mem_zipIdx_iff_getElem?.mp hmem
      cases i with
      | zero =>
        obtain rfl := Option.some.inj hbyte
        dsimp only
        rw [hfirst, Bool.true_or]
      | succ i =>
        obtain ⟨c, hc, rfl⟩ := List.mem_map.mp (List.mem_of_getElem? (l := rest.map _) hbyte)
        dsimp only
        rw [decide_eq_true (Nat.succ_pos i), Bool.true_and]
        exact (byte_of_nameCharacter (hcharacters (List.mem_cons_of_mem _ hc))).2

/-- **The request of a job of an accepted text is one that may be sent.** -/
theorem encodeRequest_of_job {scheduler : Scheduler} {text : String} {instant : ℤ}
    {parsed : ParsedCrontab} (h : parseCrontab scheduler text instant = .ok parsed)
    {job : CronJobDefinition} (hjob : job ∈ parsed.jobs) :
    encodeRequest (request job) = .ok (frame 0 (requestBody (request job))) := by
  obtain ⟨above, line, after, hlines, hwritten⟩ := exists_written h hjob
  obtain ⟨environment, henvironment, hentries⟩ := hwritten.environment
  have hassigned : ∀ entry ∈ environment.entries, LastAssigned above entry.1 entry.2.text :=
    fun entry hentry => (hentries _ _).mp ⟨entry, hentry, rfl, rfl⟩
  have hsize := size_entries_le hassigned
  refine encodeRequest_eq_ok_iff.mpr ⟨validRequest_iff.mpr ⟨⟨?_, ?_, ?_, ?_⟩, ?_⟩, ?_, rfl⟩
  · intro hempty
    have hline := job.command.line
    rw [show job.command.text = "" from hempty] at hline
    exact absurd hline (by decide)
  · exact job.command.size_le
  · intro hnul
    have hline := job.command.line
    rw [isNonemptyLine, Bool.and_eq_true, Bool.not_eq_true', List.any_eq_false] at hline
    exact hline.2 _ hnul (by simp)
  · intro entry hentry
    rw [request, henvironment] at hentry
    obtain ⟨entry, hmem, rfl⟩ := List.mem_map.mp hentry
    refine environmentEntry_entryText (environment.names entry hmem) fun hnul => ?_
    obtain ⟨before, line', between, rfl, hassigns, -⟩ := hassigned entry hmem
    have hline : line' ∈ crontabLines text := by
      rw [hlines]
      simp
    obtain ⟨crontab, hcrontab, -⟩ := bind_eq_ok_iff.mp h
    have hcrontab := ofOption_eq_ok_iff.mp hcrontab
    refine crontab.nul ?_
    rw [Crontab.text_of_parse? hcrontab]
    exact mem_of_mem_crontabLines hline (hassigns.sublist.subset (by simp [hnul]))
  · rw [request, henvironment]
    exact (List.length_map _).trans_le (environment_le h job hjob environment henvironment)
  · have htext := size_crontabLines text
    have hcount := environment_le h job hjob environment henvironment
    obtain ⟨crontab, hcrontab, -⟩ := bind_eq_ok_iff.mp h
    have hcrontab := ofOption_eq_ok_iff.mp hcrontab
    have hlimit := crontab.size_le
    rw [Crontab.text_of_parse? hcrontab] at hlimit
    have hcommand : job.command.text.utf8ByteSize ≤ Bytes.size line := by
      rw [Bytes.utf8ByteSize_eq]
      exact Bytes.size_le_of_sublist hwritten.command.suffix.sublist
    have hlengths : ((environment.entries.map entryText).map fun entry =>
        4 + entry.utf8ByteSize).sum = environment.entries.length * 4 +
          (environment.entries.map fun entry => (entryText entry).utf8ByteSize).sum := by
      rw [List.sum_map_add, List.map_const', List.sum_replicate, List.length_map, List.map_map]
      rfl
    rw [hlines] at htext
    simp only [List.map_append, List.map_cons, List.sum_append, List.sum_cons] at htext
    rw [maxCrontabBytes] at hlimit
    rw [maxCronEnvironmentVariables] at hcount
    have hlength : requestLength (request job) = 8 + job.command.text.utf8ByteSize +
        ((environment.entries.map entryText).map fun entry => 4 + entry.utf8ByteSize).sum := by
      rw [requestLength, request, henvironment]
      rfl
    have hmax : maxRequestBytes = 65536 + 258 * 4 := rfl
    rw [hlength, hlengths, hmax]
    omega

/-! ### In the guest -/

/-- The variables of a job, as entries. -/
def jobEntries (job : CronJobDefinition) : InstanceEnv.Entries :=
  (job.environment.elim [] TenantEnvironment.entries).map fun entry =>
    (entry.1.toList, entry.2.text.toList)

/-- The guest finds the job's variables in the entries of its request. -/
theorem requestEntries_request (job : CronJobDefinition) :
    requestEntries (request job) = jobEntries job := by
  rw [requestEntries, request, jobEntries]
  cases job.environment with
  | none => rfl
  | some environment =>
    have hsplit : ∀ entry ∈ environment.entries,
        TextLines.splitOnce '=' (entryText entry).toList =
          some (entry.1.toList, entry.2.text.toList) := by
      intro entry hentry
      rw [toList_entryText]
      refine TextLines.splitOnce_append (fun hequals => ?_) _
      exact absurd (isNameCharacter_of_mem (environment.names entry hentry) hequals) (by decide)
    rw [Option.elim_some, Option.elim_some, List.filterMap_map, ← List.filterMap_eq_map']
    exact List.filterMap_congr hsplit

theorem nodup_jobEntries (job : CronJobDefinition) : ((jobEntries job).map Prod.fst).Nodup := by
  rw [jobEntries, List.map_map]
  cases job.environment with
  | none => exact List.nodup_nil
  | some environment =>
    have hnames := environment.nodup_names.map fun a b h => String.toList_inj.mp h
    rwa [List.map_map] at hnames

/-- **Every job of an accepted crontab can be run as written.** The jobs are those of the lines that
are neither comment nor assignment, in their order and with what the lines above assign last; the
request of each is one that may be sent, and the guest reads it back; and in the environment of its
command no name is there twice, and the job's variables go before the tenant's, and these before
those of every command. -/
theorem runs_as_written {scheduler : Scheduler} {text : String} {instant : ℤ}
    {parsed : ParsedCrontab} (h : parseCrontab scheduler text instant = .ok parsed) :
    List.Forall₂ (fun site job => WrittenAs site.1 site.2 job) (jobSites [] (crontabLines text))
        parsed.jobs ∧
      ∀ job ∈ parsed.jobs,
        (∃ bytes, encodeRequest (request job) = .ok bytes ∧
          ReadsRequest (bytes.take headerBytes) (bytes.drop headerBytes) (request job)) ∧
        ∀ config : InstanceEnv.InstanceConfig,
          ((environment config (request job)).map Prod.fst).Nodup ∧
            ∀ name, InstanceEnv.named (environment config (request job)) name =
              (InstanceEnv.named (jobEntries job) name).or
                ((lastValue (tenantEnvironment config) name).or
                  (InstanceEnv.named (standard config) name)) := by
  refine ⟨parseCrontab_lines h, fun job hjob => ⟨?_, fun config => ?_⟩⟩
  · have hencoded := encodeRequest_of_job h hjob
    refine ⟨_, hencoded, decodes_request_iff.mpr ⟨?_, by rwa [List.take_append_drop]⟩⟩
    rw [frame_eq, List.take_left' (length_headerOf _ _), length_headerOf]
  · refine ⟨nodup_environment config _, fun name => ?_⟩
    rw [named_environment, requestEntries_request, lastValue_of_nodup (nodup_jobEntries job)]

private def anyHost : Scheduler := ⟨"UTC", 10, fun _ _ => true⟩

private def tokenText : String := "TOKEN='first'\r\n# again\nTOKEN = second\n@daily  echo ok\n"

private def tokenJob : CronJobDefinition where
  schedule := ⟨"@daily", by decide, by decide⟩
  command := ⟨"echo ok", by decide, by decide, by decide⟩
  environment := some ⟨[("TOKEN", ⟨"second", by decide, by decide⟩)], by decide, by decide⟩

/-- A job runs with the last value above it, whatever its tenant has. -/
theorem runs_as_written_token :
    (∃ bytes, encodeRequest (request tokenJob) = .ok bytes) ∧
      ∀ config : InstanceEnv.InstanceConfig,
        InstanceEnv.named (environment config (request tokenJob)) "TOKEN".toList =
          some "second".toList := by
  have hparsed : parseCrontab anyHost tokenText 0 =
      .ok ⟨[tokenJob], ⟨tokenText, by decide, by decide⟩⟩ := by decide +kernel
  obtain ⟨-, hjobs⟩ := runs_as_written hparsed
  obtain ⟨⟨bytes, hbytes, -⟩, henvironment⟩ := hjobs tokenJob List.mem_cons_self
  refine ⟨⟨bytes, hbytes⟩, fun config => ?_⟩
  rw [(henvironment config).2]
  rfl

end Nibrunner.Cron
