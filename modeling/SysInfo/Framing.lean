import SysInfo.SessionRuns

/-!
# Lines over one connection

The client writes a line and reads the reply before it writes the next line. The
transport keeps the bytes in order and hands the session any non-empty prefix of
what is in transit, as far as its buffer reaches.
-/

namespace SysInfo.Framing
open SysInfo.Text SysInfo.Utils SysInfo.Separated SysInfo.Transition SysInfo.Session SysInfo.SessionRuns

structure Wire where
  /-- Lines the client has still to write. -/
  unwritten : List Bytes
  /-- Bytes written and not yet delivered. -/
  transit : Bytes
  /-- The client has written a line and not read its reply. -/
  waiting : Bool
  /-- Replies written and not yet read. -/
  replies : Nat
  /-- What the reads of the session delivered so far. -/
  chunks : List Bytes
  session : State

def connect (authorized_clients : Clients) (lines : List Bytes) : Wire :=
  ⟨lines,[],false,0,[],start authorized_clients⟩

inductive Move where
  | write_line
  | deliver (length : Nat) (task : Task)
  | reply_written
  | read_reply

def move (w : Wire) : Move → Option Wire
  | .write_line =>
    match w.unwritten with
    | [] => none
    | line :: rest =>
      if w.waiting then none else some { w with unwritten := rest, transit := w.transit ++ line, waiting := true }
  | .deliver length task =>
    if 1 ≤ length ∧ length ≤ max_length ∧ length ≤ w.transit.length then
      (step w.session (.read (.data (w.transit.take length)) task)).map fun session =>
        { w with transit := w.transit.drop length, chunks := w.chunks ++ [w.transit.take length], session }
    else none
  | .reply_written =>
    (step w.session (.write true)).map fun session => { w with replies := w.replies + 1, session }
  | .read_reply =>
    if w.waiting ∧ 0 < w.replies then some { w with waiting := false, replies := w.replies - 1 } else none

/-- A line `key|m|c|p|time` under an authorized key without a separator. -/
def Report (authorized_clients : Clients) (line : Bytes) : Prop :=
  ∃ key memory cpu processes time : Bytes, separator ∉ key ∧ key ∈ authorized_clients ∧
    line = key ++ separator :: (memory ++ separator :: (cpu ++ separator :: (processes ++ separator :: time)))

/-- Nothing is left to deliver, or the session read out of range. -/
def Finished (w : Wire) : Prop := w.session.fault = true ∨ (w.unwritten = [] ∧ w.transit = [])

/-- The details inserted are those of the lines, one for each, in order. -/
def Stored (lines : List Bytes) (w : Wire) : Prop :=
  w.session.fault = false ∧ (w.session.log.filterMap Event.detail).map some = lines.map parse_to_client_detail

/-- Bytes in order, and a run of the session on the chunks. -/
structure Carries (authorized_clients : Clients) (lines : List Bytes) (w : Wire) : Prop where
  bytes : w.chunks.flatten ++ w.transit ++ w.unwritten.flatten = lines.flatten
  session : ∃ inputs, run step (start authorized_clients) inputs = some w.session ∧
    (reads inputs).map Prod.fst = w.chunks.map ReadResult.data

theorem carries_move {authorized_clients : Clients} {lines : List Bytes} {w v : Wire} {m : Move}
    (carries : Carries authorized_clients lines w) (one : move w m = some v) : Carries authorized_clients lines v := by
  obtain ⟨bytes,inputs,ran,delivered⟩ := carries
  cases m with
  | write_line =>
    simp only [move] at one
    split at one
    · cases one
    · rename_i line rest unwritten
      split at one
      · cases one
      · cases one
        exact ⟨by simpa [unwritten] using bytes,inputs,ran,delivered⟩
  | deliver length task =>
    simp only [move] at one
    split at one
    · obtain ⟨session,stepped,rfl⟩ := Option.map_eq_some_iff.mp one
      refine ⟨by simpa using bytes,_,run_snoc_some.mpr ⟨_,ran,stepped⟩,?_⟩
      simp [delivered]
    · cases one
  | reply_written =>
    simp only [move] at one
    obtain ⟨session,stepped,rfl⟩ := Option.map_eq_some_iff.mp one
    exact ⟨bytes,_,run_snoc_some.mpr ⟨_,ran,stepped⟩,by simpa using delivered⟩
  | read_reply =>
    simp only [move] at one
    split at one
    · cases one
      exact ⟨bytes,inputs,ran,delivered⟩
    · cases one

theorem run_carries {authorized_clients : Clients} {lines : List Bytes} {moves : List Move} {w : Wire}
    (ran : run move (connect authorized_clients lines) moves = some w) : Carries authorized_clients lines w :=
  run_invariant (Carries authorized_clients lines) (fun _ _ _ carries one => carries_move carries one) ran
    ⟨by simp [connect],[],rfl,by simp [connect,reads]⟩

/-- The details inserted are those of the authorized chunks. -/
theorem details_of_chunks {authorized_clients : Clients} {lines : List Bytes} {w : Wire}
    (carries : Carries authorized_clients lines w) :
    w.session.log.filterMap Event.detail = w.chunks.filterMap fun chunk => stored authorized_clients (.data chunk) := by
  obtain ⟨inputs,ran,delivered⟩ := carries.session
  have mapped := congrArg (List.filterMap (stored authorized_clients)) delivered
  rw [List.filterMap_map,List.filterMap_map] at mapped
  exact (details_eq ran).trans mapped

theorem fault_of_chunks {authorized_clients : Clients} {lines : List Bytes} {w : Wire}
    (carries : Carries authorized_clients lines w) :
    w.session.fault = false ↔ ∀ chunk ∈ w.chunks, 4 ≤ chunk.count separator := by
  obtain ⟨inputs,ran,delivered⟩ := carries.session
  rw [phase_fault (run_tracks ran).phase]
  have results : AllInRange (reads inputs) ↔ ∀ result ∈ (reads inputs).map Prod.fst, InRange result := by
    simp [AllInRange]
  rw [results,delivered]
  simp [InRange,parse_isSome_iff]

/-! ## Reports -/

theorem report_count {authorized_clients : Clients} {line : Bytes} (report : Report authorized_clients line) :
    4 ≤ line.count separator := by
  obtain ⟨key,memory,cpu,processes,time,_,_,rfl⟩ := report
  simp only [List.count_append,List.count_cons_self]
  omega

/-- The detail of a report is inserted when the report arrives as one chunk. -/
theorem report_stored {authorized_clients : Clients} {line : Bytes} (report : Report authorized_clients line) :
    ∃ c_detail, parse_to_client_detail line = some c_detail ∧ stored authorized_clients (.data line) = some c_detail := by
  obtain ⟨c_detail,parsed⟩ := Option.isSome_iff_exists.mp ((parse_isSome_iff line).mpr (report_count report))
  obtain ⟨key,memory,cpu,processes,time,plain,authorized,rfl⟩ := report
  have keyed : c_detail.client_key = key := by
    rw [parse_client_key parsed,firstField_append_of_not_mem plain]
    simp [firstField]
  exact ⟨c_detail,parsed,by simp [stored,parsed,keyed,authorized]⟩

private theorem parsed_heads : ∀ {first second : List Bytes},
    first.map parse_to_client_detail = second.map parse_to_client_detail →
    (∀ piece ∈ first, (parse_to_client_detail piece).isSome) →
    first.map (firstField separator) = second.map (firstField separator)
  | [], [], _, _ => rfl
  | [], _ :: _, same, _ => by cases same
  | _ :: _, [], same, _ => by cases same
  | a :: first, b :: second, same, parses => by
    simp only [List.map_cons,List.cons.injEq] at same
    obtain ⟨c_detail,parsed⟩ := Option.isSome_iff_exists.mp (parses a (by simp))
    have heads : firstField separator a = firstField separator b :=
      (parse_client_key parsed).symm.trans (parse_client_key (same.1.symm.trans parsed))
    simp [heads,parsed_heads same.2 fun p m => parses p (by simp [m])]

private theorem parses_of_stored {authorized_clients : Clients} {chunks : List Bytes}
    (every : ∀ chunk ∈ chunks, (stored authorized_clients (.data chunk)).isSome) :
    (chunks.filterMap fun chunk => stored authorized_clients (.data chunk)).map some = chunks.map parse_to_client_detail := by
  induction chunks with
  | nil => rfl
  | cons chunk chunks ih =>
    obtain ⟨c_detail,kept⟩ := Option.isSome_iff_exists.mp (every chunk (by simp))
    obtain ⟨_,same,parsed,_⟩ := stored_data kept
    cases same
    simp [kept,parsed,ih fun c m => every c (by simp [m])]

/-! ## Lines and chunks -/

theorem stored_of_whole_lines {authorized_clients : Clients} {lines : List Bytes} {w : Wire}
    (carries : Carries authorized_clients lines w) (reports : ∀ line ∈ lines, Report authorized_clients line)
    (whole : w.chunks = lines) : Stored lines w := by
  refine ⟨(fault_of_chunks carries).mpr ?_,?_⟩
  · intro chunk member
    exact report_count (reports chunk (whole ▸ member))
  · rw [details_of_chunks carries,whole]
    refine parses_of_stored ?_
    intro line member
    obtain ⟨c_detail,_,kept⟩ := report_stored (reports line member)
    simp [kept]

/-- When no line has a further separator, nothing but whole lines stores them:
    the separators are just enough for one chunk a line, and equal keys put the
    cuts at the ends of the lines. -/
theorem whole_lines_of_stored {authorized_clients : Clients} {lines : List Bytes} {w : Wire}
    (carries : Carries authorized_clients lines w) (four : ∀ line ∈ lines, line.count separator = 4)
    (delivered : w.unwritten = [] ∧ w.transit = []) (kept : Stored lines w) : w.chunks = lines := by
  have flat : w.chunks.flatten = lines.flatten := by simpa [delivered] using carries.bytes
  have counts := (fault_of_chunks carries).mp kept.1
  have details := kept.2
  rw [details_of_chunks carries] at details
  have sameLength : (w.chunks.filterMap fun chunk => stored authorized_clients (.data chunk)).length = lines.length := by
    simpa using congrArg List.length details
  have total : lines.flatten.count separator = 4 * lines.length := count_flatten_eq four
  have enough := count_flatten_ge counts
  rw [flat,total] at enough
  have few := List.length_filterMap_le (fun chunk => stored authorized_clients (.data chunk)) w.chunks
  have fourEach := count_eq_of_flatten_le counts (by rw [flat,total]; omega)
  have everyStored := List.filterMap_length_eq_length.mp
    (sameLength.trans (by omega : lines.length = w.chunks.length))
  have parses := (parses_of_stored everyStored).symm.trans details
  refine cut_unique (by decide : 0 < 4) fourEach four (parsed_heads parses ?_) flat
  intro piece member
  exact (parse_isSome_iff piece).mpr (counts piece member)

/-- After any run to its end, however the transport cut the bytes: lines that
    arrive whole, each in one read, are stored one row for each, and lines of five
    fields are stored so only if they do. -/
theorem stored_iff_whole_lines {authorized_clients : Clients} {lines : List Bytes} {moves : List Move} {w : Wire}
    (reports : ∀ line ∈ lines, Report authorized_clients line)
    (ran : run move (connect authorized_clients lines) moves = some w) (finished : Finished w) :
    (w.chunks = lines → Stored lines w) ∧
      ((∀ line ∈ lines, line.count separator = 4) → (Stored lines w ↔ w.chunks = lines)) := by
  have carries := run_carries ran
  refine ⟨stored_of_whole_lines carries reports,fun four => ⟨fun kept => ?_,stored_of_whole_lines carries reports⟩⟩
  rcases finished with fault | delivered
  · rw [kept.1] at fault
    cases fault
  · exact whole_lines_of_stored carries four delivered kept

private theorem testReport_report : Report testClients testReport :=
  ⟨lit "jill",lit "44",lit "89",lit "11",lit "Sat Nov 26 17:25:44 2016",by decide,by decide,by decide⟩

/-- The line of the test and another one, each in one read: the second is written once
    the reply to the first was read. -/
def twoLines : List Bytes := [testReport,lit "jack|1|2|3|later"]
def twoLinesWhole : List Move :=
  [.write_line,.deliver 38 ⟨.async,.returned⟩,.reply_written,.read_reply,
    .write_line,.deliver 16 ⟨.async,.threw⟩,.reply_written,.read_reply]

theorem stored_whole_report : ∃ w, run move (connect testClients twoLines) twoLinesWhole = some w ∧
    w.session.log.filterMap Event.detail =
      [⟨lit "jill",44,89,11,lit "Sat Nov 26 17:25:44 2016"⟩,⟨lit "jack",1,2,3,lit "later"⟩] ∧ Stored twoLines w := by
  have ends : (run move (connect testClients twoLines) twoLinesWhole).map
      (fun w => (w.unwritten,w.transit,w.chunks,w.session.log.filterMap Event.detail)) = some ([],[],twoLines,
        [⟨lit "jill",44,89,11,lit "Sat Nov 26 17:25:44 2016"⟩,⟨lit "jack",1,2,3,lit "later"⟩]) := by decide +kernel
  obtain ⟨w,ran,same⟩ := Option.map_eq_some_iff.mp ends
  simp only [Prod.mk.injEq] at same
  have reports : ∀ line ∈ twoLines, Report testClients line := by
    intro line member
    rcases List.mem_cons.mp member with rfl | other
    · exact testReport_report
    · rw [List.mem_singleton.mp other]
      exact ⟨lit "jack",lit "1",lit "2",lit "3",lit "later",by decide,by decide,by decide⟩
  exact ⟨w,ran,same.2.2.2,(stored_iff_whole_lines reports ran (.inr ⟨same.1,same.2.1⟩)).1 same.2.2.1⟩

/-- The line of the test in two reads: a row with a truncated time, then a read out of
    range. -/
theorem cut_report_not_stored : ¬ ∀ (lines : List Bytes) (moves : List Move) (w : Wire),
    (∀ line ∈ lines, Report testClients line) → run move (connect testClients lines) moves = some w →
    Finished w → Stored lines w := by
  intro always
  have ends : (run move (connect testClients [testReport])
      [.write_line,.deliver 17 ⟨.async,.returned⟩,.reply_written,.deliver 21 ⟨.async,.returned⟩]).map
      (fun w => w.session.fault) = some true := by decide +kernel
  obtain ⟨w,ran,fault⟩ := Option.map_eq_some_iff.mp ends
  have kept := always [testReport] _ w (by simpa using testReport_report) ran (.inl fault)
  rw [kept.1] at fault
  cases fault

end SysInfo.Framing
