import OpenvoxCa.Ca.ServingSpecs

/-!
# Requests and generation keep to the discipline of the CRL lock

`task_spec` extends `operation_spec` to every task of an issuing cluster. Requests do not come near
the CRL; a generation that replaces a certificate revokes it under the CRL lock, as a revocation
does.
-/

namespace OpenvoxCa.Ca

open Conc

theorem local_loadCRLCache (ca : CA) : (loadCRLCache ca).Only Cmd.Local :=
  Prog.only_bind (only_ask (only_cmd (c := .getCRL) trivial)) fun _ =>
    Prog.only_bind (Prog.only_ofExcept _) fun _ => local_modifyMemory _

/-- **Every task keeps to the discipline of the CRL lock.** -/
theorem task_spec (ca : CA) (t : Tid) (j : TaskJob) :
    Keeps (writerDiscipline ca) t j.job (Held t []) (taskProgram ca j.task) := by
  have hres : ∀ {β : Type} {f : β → TaskResult} {p : Prog β},
      Keeps (writerDiscipline ca) t j.job (Held t []) p →
      Keeps (writerDiscipline ca) t j.job (Held t []) (p.bind fun a => .ret (f a)) :=
    fun hp => Keeps.bind hp fun _ => Keeps.ret (Held.stable [])
  have hbuild := builds_writer ca t j.job
  have hissue : ∀ subject name key sans exts eku ttl,
      Keeps (writerDiscipline ca) t j.job (Held t [.subject subject])
        (issueLeafLocked ca subject name key sans exts eku ttl) :=
    fun _ _ _ _ _ _ _ => held_quiet (quiet_issueLeafLocked _ _ _ _ _ _ _ _)
  cases htask : j.task with
  | serve op =>
    have hop : j.job.op = op := by simp [TaskJob.job, htask]
    have hspec := operation_spec ca t j.job
    rw [hop] at hspec
    exact hres (hspec.weaken fun _ _ _ hs => hs.1)
  | saveRequest subject csrPEM autosign =>
    exact hres (hbuild.saveRequest (hissue subject) (fun _ => held_quiet (only_cmd trivial)) _ _)
  | deleteRequest subject => exact hres hbuild.deleteRequest
  | generate subject opts key =>
    exact hres (hbuild.generateWithOptions (hissue subject)
      (held_quiet (always_quiet (local_loadCRLCache ca)))
      (fun serial => withCRLLock_mutex_keeps (by simp) revokeSerialLocked_inside) _ _)

end OpenvoxCa.Ca
