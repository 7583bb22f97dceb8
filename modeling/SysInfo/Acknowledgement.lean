import SysInfo.SessionRuns

/-!
# What a success reply says about the store

The statement of a chunk is executed by a task that swallows what is thrown, or
not at all; the reply is chosen without a look at either.
-/

namespace SysInfo.Acknowledgement
open SysInfo.Text SysInfo.Utils SysInfo.Transition SysInfo.Session SysInfo.SessionRuns

/-- `execute` was called with the statement of the detail and returned. -/
def executed (c_detail : ClientDetail) : Event := .execute (generate_insert_str_for c_detail) .returned

/-- Success is replied only after the statement was executed, and some other
    reply is sent when it was not. -/
structure SuccessMeansStored (c_detail : ClientDetail) (events : List Event) : Prop where
  success : ∀ before after, events = before ++ .do_write .READ_SUCCESS :: after → executed c_detail ∈ before
  failure : executed c_detail ∉ events → ∃ reply, reply ≠ .READ_SUCCESS ∧ .do_write reply ∈ events

private theorem executed_mem_iff (c_detail : ClientDetail) (task : Task) :
    executed c_detail ∈ write_to_db (generate_insert_str_for c_detail) task ↔ task = ⟨.async,.returned⟩ := by
  obtain ⟨launch,execution⟩ := task
  cases launch <;> cases execution <;> simp [write_to_db,executed]

/-- The events up to the reply, for a key in the map. -/
private theorem respondTo_authorized {authorized_clients : Clients} {c_detail : ClientDetail}
    (authorized : is_client_authorized authorized_clients c_detail.client_key = true) (task : Task) :
    ∃ before, respondTo authorized_clients c_detail task = before ++ [.do_write .READ_SUCCESS] ∧
      (∀ reply, Event.do_write reply ∉ before) ∧ (executed c_detail ∈ before ↔ task = ⟨.async,.returned⟩) := by
  obtain ⟨c_config,found⟩ := authorized_lookup authorized
  refine ⟨_,by unfold respondTo; rw [found],?_,?_⟩
  · intro reply
    unfold write_to_db
    cases task.launch <;> cases limitCrossed c_config c_detail <;> simp
  · have mail : executed c_detail ∉ if limitCrossed c_config c_detail then [Event.send_email] else [] := by
      cases limitCrossed c_config c_detail <;> simp [executed]
    have detail : executed c_detail ≠ .write_to_db c_detail := Event.noConfusion
    rw [List.mem_append,List.mem_cons,executed_mem_iff]
    simp [mail,detail]

theorem stored_iff_of_authorized {authorized_clients : Clients} {c_detail : ClientDetail}
    (authorized : is_client_authorized authorized_clients c_detail.client_key = true) (task : Task) :
    SuccessMeansStored c_detail (respondTo authorized_clients c_detail task) ↔ task = ⟨.async,.returned⟩ := by
  obtain ⟨before,split,silent,ran⟩ := respondTo_authorized authorized task
  rw [split]
  constructor
  · intro kept
    exact ran.mp (kept.success before [] rfl)
  · intro returned
    refine ⟨?_,fun absent => absurd (List.mem_append_left _ (ran.mpr returned)) absent⟩
    intro first after same
    rcases snoc_split same with ⟨_,rfl,_⟩ | ⟨rest,_,earlier⟩
    · exact ran.mpr returned
    · exact absurd (by simp [earlier]) (silent .READ_SUCCESS)

theorem stored_of_unauthorized {authorized_clients : Clients} {c_detail : ClientDetail}
    (refused : is_client_authorized authorized_clients c_detail.client_key = false) (task : Task) :
    SuccessMeansStored c_detail (respondTo authorized_clients c_detail task) := by
  have missing : authorized_clients.lookup c_detail.client_key = none := by
    simpa [is_client_authorized] using refused
  have only : respondTo authorized_clients c_detail task = [.do_write .NOT_AUTHORIZED] := by
    unfold respondTo
    rw [missing]
  rw [only]
  refine ⟨?_,fun _ => ⟨.NOT_AUTHORIZED,by decide,by simp⟩⟩
  intro before after same
  have member : Event.do_write .READ_SUCCESS ∈ [Event.do_write .NOT_AUTHORIZED] := by simp [same]
  cases List.mem_singleton.mp member

/-- In every state of a session, what it does with a chunk keeps success to
    stored reports exactly if the chunk's key is not authorized, or its task was
    given a thread and its statement was executed without an exception. -/
theorem success_means_stored_iff {authorized_clients : Clients} {inputs : List Completion} {s t : State}
    {chunk : Bytes} {task : Task} {c_detail : ClientDetail}
    (ran : run step (start authorized_clients) inputs = some s)
    (parsed : parse_to_client_detail chunk = some c_detail) (one : step s (.read (.data chunk) task) = some t) :
    ∃ events, t.log = s.log ++ events ∧
      (SuccessMeansStored c_detail events ↔
        is_client_authorized authorized_clients c_detail.client_key = false ∨ task = ⟨.async,.returned⟩) := by
  refine ⟨_,log_of_read ran parsed one,?_⟩
  cases authorized : is_client_authorized authorized_clients c_detail.client_key with
  | true => simpa using stored_iff_of_authorized authorized task
  | false => simpa using stored_of_unauthorized authorized task

/-- The line of the test, stored and acknowledged. -/
theorem test_report_stored : ∃ t events, step (start testClients) (.read (.data testReport) ⟨.async,.returned⟩) = some t ∧
    t.log = .do_read :: events ∧ SuccessMeansStored ⟨lit "jill",44,89,11,lit "Sat Nov 26 17:25:44 2016"⟩ events := by
  have parsed : parse_to_client_detail testReport = some ⟨lit "jill",44,89,11,lit "Sat Nov 26 17:25:44 2016"⟩ := by decide
  obtain ⟨t,one⟩ := first_read testClients (.data testReport) ⟨.async,.returned⟩
  have ran : run step (start testClients) [] = some (start testClients) := rfl
  obtain ⟨events,logged,kept⟩ := success_means_stored_iff ran parsed one
  exact ⟨t,events,one,logged,kept.mpr (.inr rfl)⟩

/-- A negative percentage: the statement of the wrapped number does not fit its
    column, `execute` throws, and the report is acknowledged all the same. -/
theorem negative_report_acknowledged : ¬ ∀ (chunk : Bytes) (task : Task) (c_detail : ClientDetail) (events : List Event),
    parse_to_client_detail chunk = some c_detail → on_read testClients (.data chunk) task = some (events,testClients) →
    SuccessMeansStored c_detail events := by
  intro always
  have parsed : parse_to_client_detail (lit "jill|-1|2|3|t") = some ⟨lit "jill",18446744073709551615,2,3,lit "t"⟩ := by decide
  have responds : on_read testClients (.data (lit "jill|-1|2|3|t")) ⟨.async,.threw⟩ =
      some (respondTo testClients ⟨lit "jill",18446744073709551615,2,3,lit "t"⟩ ⟨.async,.threw⟩,testClients) := by
    rw [on_read_eq]
    simp [respond,parsed]
  have threw := (stored_iff_of_authorized (by decide) _).mp (always _ _ _ _ parsed responds)
  cases threw

end SysInfo.Acknowledgement
