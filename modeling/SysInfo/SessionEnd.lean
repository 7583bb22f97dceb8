import SysInfo.SessionRuns

/-!
# The end of a session

What a session does once its peer stops sending: every further read completes
with an error, each error is answered with a reply, and each reply that is still
written starts the next read.
-/

namespace SysInfo.SessionEnd
open SysInfo.Text SysInfo.Utils SysInfo.Transition SysInfo.Session SysInfo.SessionRuns

/-- The result of the read number `k` from a peer that sends the chunks and then
    ends its side of the stream. -/
def peer (chunks : List Bytes) (k : Nat) : ReadResult :=
  match chunks[k]? with
  | some chunk => .data chunk
  | none => .error

/-- The inputs of a session with that peer, whose write number `k` succeeds when
    `written k` says so. -/
structure Follows (chunks : List Bytes) (written : Nat → Bool) (inputs : List Completion) : Prop where
  reads : ∀ k read, (reads inputs)[k]? = some read → read.1 = peer chunks k
  writes : ∀ k ok, (writes inputs)[k]? = some ok → ok = written k

/-- One reply for each chunk and one for the end of the stream at most, then no
    operation is left outstanding. -/
def EndsWithPeer (authorized_clients : Clients) (chunks : List Bytes) (written : Nat → Bool) : Prop :=
  (∀ inputs s, run step (start authorized_clients) inputs = some s → Follows chunks written inputs →
    s.fault = false ∧ (s.log.filterMap Event.reply).length ≤ chunks.length + 1) ∧
  ∃ inputs s, run step (start authorized_clients) inputs = some s ∧ Follows chunks written inputs ∧ s.outstanding = []

theorem peer_inRange {chunks : List Bytes} {k : Nat} :
    InRange (peer chunks k) ↔ ∀ chunk, chunks[k]? = some chunk → 4 ≤ chunk.count separator := by
  unfold peer
  cases found : chunks[k]? with
  | none => simp [InRange]
  | some chunk => simp [InRange,parse_isSome_iff]

private theorem take_inRange {chunks : List Bytes} {k : Nat} :
    (∀ chunk ∈ chunks.take (k+1), 4 ≤ chunk.count separator) ↔ ∀ j ≤ k, InRange (peer chunks j) := by
  constructor
  · intro counts j le
    rw [peer_inRange]
    intro chunk found
    apply counts
    exact List.mem_iff_getElem?.mpr ⟨j,by rw [List.getElem?_take_of_lt (by omega)]; exact found⟩
  · intro inRange chunk member
    obtain ⟨j,found⟩ := List.mem_iff_getElem?.mp member
    rw [List.getElem?_take] at found
    split at found
    · exact peer_inRange.mp (inRange j (by omega)) chunk found
    · cases found

/-! ## Runs with the peer -/

/-- The first results of reading from the peer. -/
def resultsOf (chunks : List Bytes) (n : Nat) : List (ReadResult × Task) :=
  (List.range n).map fun k => (peer chunks k,⟨.async,.returned⟩)

private theorem resultsOf_inRange {chunks : List Bytes} {n : Nat} (inRange : ∀ j < n, InRange (peer chunks j)) :
    AllInRange (resultsOf chunks n) := by
  intro read member
  obtain ⟨j,inside,rfl⟩ := List.mem_map.mp member
  exact inRange j (List.mem_range.mp inside)

private theorem writtenOf_true {written : Nat → Bool} {n : Nat} (all : ∀ j < n, written j = true) :
    AllWritten ((List.range n).map written) := by
  intro ok member
  obtain ⟨j,inside,rfl⟩ := List.mem_map.mp member
  exact all j (List.mem_range.mp inside)

/-- While every reply is written, the schedule takes all results. -/
private theorem schedule_all (last : List Bool) (short : last.length ≤ 1) :
    ∀ (results : List (ReadResult × Task)) {written : List Bool}, AllWritten written →
      written.length + last.length ≤ results.length → results.length ≤ written.length + 1 →
      reads (schedule results (written ++ last)) = results ∧ writes (schedule results (written ++ last)) = written ++ last := by
  intro results
  induction results with
  | nil =>
    intro written _ enough _
    simp only [List.length_nil,Nat.le_zero,Nat.add_eq_zero_iff,List.length_eq_zero_iff] at enough
    simp [schedule,reads,writes,enough]
  | cons read results ih =>
    intro written all enough few
    cases written with
    | nil =>
      have final : results = [] := by simpa using few
      rcases List.eq_nil_or_concat last with rfl | ⟨none,ok,rfl⟩
      · simp [schedule,reads,writes,final]
      · have only : none = [] := by simpa using short
        subst only
        cases ok <;> simp [schedule,reads,writes,final]
    | cons ok written =>
      cases all ok (by simp)
      have tail := @ih written (fun o m => all o (by simp [m])) (by simp at enough; omega)
        (by simpa using few)
      simpa [schedule,reads,writes] using tail

private theorem follows_of_eq {chunks : List Bytes} {written : Nat → Bool} {inputs : List Completion} {n m : Nat}
    (readAll : reads inputs = resultsOf chunks n) (writtenAll : writes inputs = (List.range m).map written) :
    Follows chunks written inputs := by
  constructor
  · intro k read found
    rw [readAll,resultsOf,List.getElem?_map] at found
    obtain ⟨j,inside,rfl⟩ := Option.map_eq_some_iff.mp found
    have same : j = k := by
      obtain ⟨_,value⟩ := List.getElem?_eq_some_iff.mp inside
      simpa using value.symm
    rw [same]
  · intro k ok found
    rw [writtenAll,List.getElem?_map] at found
    obtain ⟨j,inside,rfl⟩ := Option.map_eq_some_iff.mp found
    have same : j = k := by
      obtain ⟨_,value⟩ := List.getElem?_eq_some_iff.mp inside
      simpa using value.symm
    rw [same]

/-- As long as reads are in range and replies are written, a session takes part
    in `m` rounds, and in one more read. -/
theorem run_rounds (authorized_clients : Clients) (chunks : List Bytes) {written : Nat → Bool} {n m : Nat}
    (inRange : ∀ j < n, InRange (peer chunks j)) (all : ∀ j < m, written j = true) (enough : m ≤ n) (few : n ≤ m + 1) :
    ∃ inputs s, run step (start authorized_clients) inputs = some s ∧
      reads inputs = resultsOf chunks n ∧ writes inputs = (List.range m).map written := by
  obtain ⟨s,ran,_⟩ := run_schedule authorized_clients (resultsOf chunks n) ((List.range m).map written) []
    (resultsOf_inRange inRange)
  have taken := schedule_all [] (by simp) (resultsOf chunks n) (writtenOf_true all)
    (by simpa [resultsOf] using enough) (by simpa [resultsOf] using few)
  rw [List.append_nil] at taken
  exact ⟨_,s,ran,taken.1,taken.2⟩

/-- A chunk out of range faults, once the rounds before it are done. -/
theorem run_to_fault (authorized_clients : Clients) {chunks : List Bytes} {written : Nat → Bool} {k : Nat}
    (earlier : ∀ j < k, InRange (peer chunks j) ∧ written j = true) (outside : ¬ InRange (peer chunks k)) :
    ∃ inputs s, run step (start authorized_clients) inputs = some s ∧ Follows chunks written inputs ∧ s.fault = true := by
  obtain ⟨inputs,s,ran,readAll,writtenAll⟩ := run_rounds authorized_clients chunks (fun j lt => (earlier j lt).1)
    (fun j lt => (earlier j lt).2) (Nat.le_refl k) (Nat.le_succ k)
  have phase := (run_tracks ran).phase
  have alive : s.fault = false :=
    (phase_fault phase).mpr (readAll ▸ resultsOf_inRange fun j lt => (earlier j lt).1)
  rw [alive] at phase
  have waiting := phase_of_even phase (by rw [readAll,writtenAll]; simp [resultsOf])
    (writtenAll ▸ writtenOf_true fun j lt => (earlier j lt).2)
  obtain ⟨t,one⟩ := step_enabled (.read (peer chunks k) ⟨.async,.returned⟩) alive
    (by rw [waiting]; exact List.mem_singleton.mpr rfl)
  have ran' := run_snoc_some.mpr ⟨s,ran,one⟩
  have readMore : reads (inputs ++ [.read (peer chunks k) ⟨.async,.returned⟩]) = resultsOf chunks (k+1) := by
    rw [reads_read,readAll]
    simp [resultsOf,List.range_succ]
  refine ⟨_,t,ran',follows_of_eq readMore (by rw [writes_read]; exact writtenAll),?_⟩
  by_contra alive'
  have inRange := (phase_fault (run_tracks ran').phase).mp (by simpa using alive')
  rw [readMore] at inRange
  exact outside (inRange (peer chunks k,⟨.async,.returned⟩) (by simp [resultsOf,List.range_succ]))

/-! ## When a session ends -/

private theorem writes_before_failure {chunks : List Bytes} {written : Nat → Bool} {inputs : List Completion}
    (follows : Follows chunks written inputs) {k : Nat} (failed : written k = false) {before : List Bool}
    (start : before <+: writes inputs) (all : AllWritten before) : before.length ≤ k := by
  by_contra longer
  have inside : k < before.length := by omega
  have ok := follows.writes k before[k] (by rw [← List.prefix_iff_getElem?.mp start k inside])
  rw [all before[k] (List.getElem_mem inside),failed] at ok
  cases ok

/-- A failed write bounds the replies, and faults are excluded by the chunks
    before it. -/
private theorem bounded_by_failure {authorized_clients : Clients} {chunks : List Bytes} {written : Nat → Bool} {k : Nat}
    (failed : written k = false) (inRange : ∀ j ≤ k, InRange (peer chunks j)) {inputs : List Completion} {s : State}
    (ran : run step (start authorized_clients) inputs = some s) (follows : Follows chunks written inputs) :
    s.fault = false ∧ (s.log.filterMap Event.reply).length ≤ k + 1 := by
  have few : (reads inputs).length ≤ k + 1 → (s.log.filterMap Event.reply).length ≤ k + 1 := by
    intro bound
    rw [replies_eq ran]
    exact (List.length_filterMap_le _ _).trans bound
  have phase := (run_tracks ran).phase
  generalize readIs : reads inputs = results at phase
  generalize writtenIs : writes inputs = ws at phase
  generalize s.outstanding = outstanding at phase
  generalize faultIs : s.fault = fault at phase
  cases phase with
  | reading _ all sameLength =>
    have le := writes_before_failure follows failed (writtenIs ▸ List.prefix_rfl) all
    exact ⟨rfl,few (by rw [readIs]; omega)⟩
  | writing _ all sameLength =>
    have le := writes_before_failure follows failed (writtenIs ▸ List.prefix_rfl) all
    exact ⟨rfl,few (by rw [readIs]; omega)⟩
  | ended _ all sameLength =>
    have le := writes_before_failure follows failed ⟨_,writtenIs.symm⟩ all
    exact ⟨rfl,few (by rw [readIs]; omega)⟩
  | @faulted results ws result task _ all sameLength outside =>
    have le := writes_before_failure follows failed (writtenIs ▸ List.prefix_rfl) all
    have last := follows.reads results.length (result,task) (by rw [readIs]; simp)
    have same : result = peer chunks results.length := last
    exact absurd (same ▸ inRange results.length (by omega)) outside

/-- A reply that is written after the end of the stream is followed by another
    one. -/
theorem not_ends_of_written {authorized_clients : Clients} {chunks : List Bytes} {written : Nat → Bool}
    (inRange : ∀ j ≤ chunks.length, InRange (peer chunks j)) (all : ∀ j ≤ chunks.length, written j = true) :
    ¬ EndsWithPeer authorized_clients chunks written := by
  rintro ⟨bounded,_⟩
  have eof : InRange (peer chunks (chunks.length+1)) := by
    rw [peer_inRange]
    intro chunk found
    simp at found
  have inRange' : ∀ j ≤ chunks.length + 1, InRange (peer chunks j) := by
    intro j le
    rcases Nat.lt_or_eq_of_le le with lt | same
    · exact inRange j (by omega)
    · exact same ▸ eof
  obtain ⟨inputs,s,ran,readAll,writtenAll⟩ := run_rounds authorized_clients chunks
    (fun j (lt : j < chunks.length + 2) => inRange' j (by omega))
    (fun j (lt : j < chunks.length + 1) => all j (by omega)) (by omega) (by omega)
  have many := (bounded inputs s ran (follows_of_eq readAll writtenAll)).2
  have replies := congrArg List.length (answered_all authorized_clients
    (resultsOf_inRange fun j (lt : j < chunks.length + 2) => inRange' j (by omega)))
  rw [replies_eq ran,readAll] at many
  simp only [List.length_map,resultsOf,List.length_range] at replies
  simp only [resultsOf] at many
  omega

/-- A session ends with its peer exactly when, among the replies to the chunks and
    the first one after them, one is not written, and no chunk up to then makes
    the parser read out of range. -/
theorem session_ends_iff (authorized_clients : Clients) (chunks : List Bytes) (written : Nat → Bool) :
    EndsWithPeer authorized_clients chunks written ↔
      ∃ k ≤ chunks.length, written k = false ∧ ∀ chunk ∈ chunks.take (k+1), 4 ≤ chunk.count separator := by
  constructor
  · intro ends
    -- The first round in which a chunk is out of range or the reply is lost.
    by_cases bad : ∃ k, k ≤ chunks.length ∧ ¬ (InRange (peer chunks k) ∧ written k = true)
    · classical
      have first := Nat.find_spec bad
      have earlier : ∀ j < Nat.find bad, InRange (peer chunks j) ∧ written j = true := by
        intro j lt
        by_contra worse
        exact Nat.find_min bad lt ⟨by omega,worse⟩
      generalize Nat.find bad = k at first earlier
      have inside : InRange (peer chunks k) := by
        by_contra outside
        obtain ⟨inputs,s,ran,follows,faulted⟩ := run_to_fault authorized_clients earlier outside
        have alive := (ends.1 inputs s ran follows).1
        rw [faulted] at alive
        cases alive
      refine ⟨k,first.1,?_,take_inRange.mpr ?_⟩
      · by_contra ok
        exact first.2 ⟨inside,by simpa using ok⟩
      · intro j le
        rcases Nat.lt_or_eq_of_le le with lt | same
        · exact (earlier j lt).1
        · exact same ▸ inside
    · push Not at bad
      exact absurd ends (not_ends_of_written (fun j le => (bad j le).1) fun j le => (bad j le).2)
  · rintro ⟨k,le,failed,counts⟩
    have inRange := take_inRange.mp counts
    refine ⟨?_,?_⟩
    · intro inputs s ran follows
      obtain ⟨alive,few⟩ := bounded_by_failure failed inRange ran follows
      exact ⟨alive,by omega⟩
    · -- The session ends at the first reply that is not written.
      classical
      have lost : ∃ j, written j = false := ⟨k,failed⟩
      have first := Nat.find_spec lost
      have earlier : ∀ j < Nat.find lost, written j = true := fun j lt => by simpa using Nat.find_min lost lt
      have early : Nat.find lost ≤ k := Nat.find_min' lost failed
      generalize Nat.find lost = m at first earlier early
      obtain ⟨s,ran,_⟩ := run_schedule authorized_clients (resultsOf chunks (m+1))
        ((List.range m).map written ++ [false]) [] (resultsOf_inRange fun j lt => inRange j (by omega))
      have taken := schedule_all [false] (by simp) (resultsOf chunks (m+1)) (writtenOf_true earlier)
        (by simp [resultsOf]) (by simp [resultsOf])
      have asWritten : (List.range m).map written ++ [false] = (List.range (m+1)).map written := by
        rw [List.range_succ,List.map_append,List.map_singleton,first]
      exact ⟨_,s,ran,follows_of_eq taken.1 (taken.2.trans asWritten),
        (phase_after_failure (run_tracks ran).phase taken.2).2⟩

/-- One report, then the end of the stream, to a peer that still reads: the
    session answers again and again. -/
theorem half_closed_peer_is_answered : ¬ ∀ (chunks : List Bytes) (written : Nat → Bool),
    (∀ chunk ∈ chunks, 1 ≤ chunk.length ∧ chunk.length ≤ max_length ∧ (parse_to_client_detail chunk).isSome) →
    EndsWithPeer testClients chunks written := by
  intro always
  have parsed : (parse_to_client_detail testReport).isSome := (parse_isSome_iff _).mpr (by decide)
  have ends := always [testReport] (fun _ => true) (by simpa using ⟨by decide,by decide,parsed⟩)
  refine not_ends_of_written ?_ (fun _ _ => rfl) ends
  intro j le
  rw [peer_inRange]
  intro chunk found
  cases j with
  | zero => cases found; decide
  | succ j => simp at found

end SysInfo.SessionEnd
