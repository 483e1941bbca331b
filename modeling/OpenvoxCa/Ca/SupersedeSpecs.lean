import OpenvoxCa.Ca.Shape

/-!
# The specifications of the operations on the list of superseded certificates

What a recording, a revocation by subject and a sweep make of the list, function by
function, up to the bodies that run under the CRL lock. Two objects are written one
after the other, the CRL first: an entry leaves the list only in a write that comes
after its serial is on the CRL, so each partial failure leaves the serial on one of
the two.

* `retireEach_spec` – the loop of a revocation by subject splits the
  subject's entries into those on the CRL by now and those to be kept;
* `drainDueLocked_spec` – a sweep splits the due entries in three;
* `recordSuperseded_spec` – a recording that succeeds has put its
  serial on the list.
-/

namespace OpenvoxCa.Ca

open Conc

variable {ca : CA} {cert : Certificate} {t : Tid} {j : Job} {ns : List LockName}
  {b : Option Blob} {l : Option SupersededBlob} {pruned : List ℤ}

/-! ### Reading and writing the list -/

/-- The holder of the CRL lock, whatever is stored. -/
def Inside (t : Tid) (ns : List LockName) (pruned : List ℤ) (s : State) : Prop :=
  ∃ b l, Holding t ns b l pruned s

theorem Inside.stable : Stable (writerDiscipline ca) t (Inside t ns pruned) := by
  rintro s s' ⟨b, l, hs⟩ h
  exact ⟨b, l, Holding.stable hs h⟩

theorem aboutCRL_inside : AboutCRL (Inside t ns pruned) := by
  rintro s s' h ⟨b, l, hs⟩
  exact ⟨b, l, aboutCRL_holding s s' h hs⟩

theorem Holding.inside {s : State} (h : Holding t ns b l pruned s) : Inside t ns pruned s :=
  ⟨b, l, h⟩

theorem loadSuperseded_spec :
    Triple (writerDiscipline ca) t j (Holding t ns b l pruned) loadSuperseded fun r s =>
      (∀ data, r = .ok data → data.entries = entriesOf l) ∧ Holding t ns b l pruned s := by
  refine Triple.call (R := fun a s => ((∀ data, a = .ok data → l = some data) ∧
    (a = .error .notExist → l = none)) ∧ Holding t ns b l pruned s) Holding.stable
    (fun _ _ _ => ⟨trivial, trivial⟩) ?_ fun a => Triple.pure_pre fun ha => ?_
  · intro s ch a s' _ hs he
    cases he
    rw [← hs.superseded]
    exact ⟨⟨fun data h => readOutcome_eq_ok h, fun h => readOutcome_eq_notExist h⟩, hs.held,
      hs.crl, rfl, hs.pruned⟩
  · cases a with
    | ok data =>
      refine Triple.ret Holding.stable fun s _ hs => ⟨?_, hs⟩
      rintro _ ⟨⟩
      simp [ha.1 data rfl, entriesOf]
    | error e =>
      cases e with
      | notExist =>
        refine Triple.ret Holding.stable fun s _ hs => ⟨?_, hs⟩
        rintro _ ⟨⟩
        simp [ha.2 rfl, entriesOf]
      | _ => exact Triple.fail Holding.stable fun s _ hs => ⟨by simp, hs⟩

theorem readSuperseded_spec :
    Triple (writerDiscipline ca) t j (Holding t ns b l pruned) readSuperseded fun r s =>
      (∀ read, r = .ok read → read.1 = entriesOf l) ∧ Holding t ns b l pruned s := by
  refine loadSuperseded_spec.seq (fun e s hr => ⟨by simp, hr.2⟩) fun data =>
    Triple.pure_pre fun hdata => Triple.ret Holding.stable fun s _ hs => ⟨?_, hs⟩
  rintro _ ⟨⟩
  exact hdata data rfl

theorem only_readSuperseded : readSuperseded.Only (· = Cmd.getSuperseded) := by
  refine Prog.only_bind (always_cmd_bind rfl fun r => ?_) fun _ => trivial
  rcases r with e | data
  · cases e <;> trivial
  · trivial

/-- `readSuperseded`, followed by anything. The read leaves everything as it is. -/
theorem readSuperseded_bind {β : Type} {f : List SupersededEntry × Bool → Prog β}
    {F : State → Prop} {Q : Except Failure β → State → Prop}
    (hF : Stable (writerDiscipline ca) t F)
    (herr : ∀ e s, Holding t ns b l pruned s → Q (.error e) s)
    (hf : ∀ corrupt, Triple (writerDiscipline ca) t j (fun s => Holding t ns b l pruned s ∧ F s)
      (f (entriesOf l, corrupt)) Q) :
    Triple (writerDiscipline ca) t j (fun s => Holding t ns b l pruned s ∧ F s)
      (readSuperseded.bind f) Q := by
  refine (readSuperseded_spec.frame_only only_readSuperseded hF ?_).seq
    (fun e s hr => herr e s hr.1.2) ?_
  · rintro _ rfl s ch a s' - - hs he
    cases he
    exact hs
  rintro ⟨entries, corrupt⟩
  refine Triple.strengthen (P := fun s => entries = entriesOf l ∧ Holding t ns b l pruned s ∧ F s)
    (Triple.pure_pre ?_) fun s hs => ⟨hs.1.1 _ rfl, hs.1.2, hs.2⟩
  rintro rfl
  exact hf corrupt

variable {entries : List SupersededEntry}

/-- What a thread wrote last stays so. -/
theorem saved_stable : Stable (writerDiscipline ca) t fun s => s.saved t = entries := by
  rintro s s' hs ⟨u, hne, j, c, ch, a, -, -, hex⟩
  cases exec_effect hex with
  | saveSuperseded => exact (Function.update_of_ne hne.symm _ _).trans hs
  | _ => exact hs

/-- `writeSuperseded`: it meets its duty where the new list is what the operation may make
of the stored one. A success is noted in the history. -/
theorem writeSuperseded_spec {F : State → Prop} (hF : Stable (writerDiscipline ca) t F)
    (hduty : ∀ s, Holding t ns b l pruned s → F s → ListDuty ca.caCert t j.op s entries) :
    Triple (writerDiscipline ca) t j (fun s => Holding t ns b l pruned s ∧ F s)
      (writeSuperseded entries) fun r s => match r with
        | .ok _ => Holding t ns b (some { entries := entries }) pruned s ∧ s.saved t = entries
        | .error _ => Holding t ns b l pruned s := by
  refine Triple.call (R := fun a s => match a with
      | .ok _ => Holding t ns b (some { entries := entries }) pruned s ∧ s.saved t = entries
      | .error _ => Holding t ns b l pruned s) (Holding.stable.and hF)
    (fun s _ hs => ⟨⟨hs.1.owner, hduty s hs.1 hs.2⟩, trivial⟩) ?_ fun a => ?_
  · rintro s ch a s' _ ⟨hs, -⟩ he
    have he := Option.some.inj he
    unfold writeOutcome at he
    split at he <;> obtain ⟨rfl, rfl⟩ := Prod.mk.inj he
    · exact hs
    · exact ⟨⟨hs.held, hs.crl, rfl, hs.pruned⟩, by simp [State.setSuperseded]⟩
  · cases a with
    | ok _ => exact Triple.ret (Holding.stable.and saved_stable) fun s _ hs => hs
    | error e => exact Triple.fail Holding.stable fun s _ hs => hs

/-- `writeSuperseded`, where it does not matter whether it succeeds. -/
theorem writeSuperseded_inside {F : State → Prop} (hF : Stable (writerDiscipline ca) t F)
    (hduty : ∀ s, Holding t ns b l pruned s → F s → ListDuty ca.caCert t j.op s entries) :
    Triple (writerDiscipline ca) t j (fun s => Holding t ns b l pruned s ∧ F s)
      (writeSuperseded entries) fun _ s => Inside t ns pruned s := by
  refine (writeSuperseded_spec hF hduty).weaken fun r s _ hr => ?_
  cases r with
  | ok _ => exact hr.1.inside
  | error _ => exact hr.inside

/-! ### Revocation by subject -/

/-- **The loop over a subject's entries** splits them into those on the CRL by now and
those to be kept. -/
theorem retireEach_spec (entries : List SupersededEntry) :
    Triple (writerDiscipline ca) t j (Holding t ns b l pruned) (retireEach ca entries)
      fun r s => ∃ revoked failed b', r = .ok failed ∧ entries.Perm (revoked ++ failed) ∧
        (∀ e ∈ revoked, ∃ n ∈ listedIn ca.caCert b', setString16 e.serial = some n) ∧
        Grown ca.caCert b b' ∧ Holding t ns b' l pruned s := by
  induction entries generalizing b with
  | nil =>
    exact Triple.ret Holding.stable fun s _ hs =>
      ⟨[], [], b, rfl, .refl _, by simp, List.Subset.refl _, hs⟩
  | cons e rest ih =>
    refine Triple.attempt_bind (Q := fun r s => ∃ b₁, Grown ca.caCert b b₁ ∧ (r = .ok () →
        ∃ n ∈ listedIn ca.caCert b₁, setString16 e.serial = some n) ∧ Holding t ns b₁ l pruned s)
      (revokeSerialLocked_spec.weaken fun r s _ hr => ?_) fun r =>
      Triple.exists_pre fun b₁ => Triple.pure_pre fun hgrown => Triple.pure_pre fun he => ?_
    · cases r with
      | ok _ =>
        obtain ⟨n, b₁, hn, hlists, hs⟩ := hr
        exact ⟨b₁, fun m hm => (hlists m).mpr (Or.inr hm),
          fun _ => ⟨n, (hlists n).mpr (Or.inl rfl), hn⟩, hs⟩
      | error _ => exact ⟨b, List.Subset.refl _, by simp, hr⟩
    · refine ih.seq (by rintro _ _ ⟨_, _, _, ⟨⟩, _⟩) fun failed => Triple.exists_pre fun revoked =>
        Triple.exists_pre fun _ => Triple.exists_pre fun b' => Triple.pure_pre ?_
      rintro ⟨⟩
      refine Triple.pure_pre fun hperm => Triple.pure_pre fun hrev => Triple.pure_pre fun hg => ?_
      -- What this entry got onto the CRL is still on it after the rest.
      have htrans : Grown ca.caCert b b' := List.Subset.trans hgrown hg
      cases r with
      | ok _ =>
        refine Triple.ret Holding.stable fun s _ hs =>
          ⟨e :: revoked, failed, b', rfl, hperm.cons e, ?_, htrans, hs⟩
        obtain ⟨n, hlisted, hn⟩ := he rfl
        rintro e' (_ | ⟨_, he'⟩)
        · exact ⟨n, hg hlisted, hn⟩
        · exact hrev e' he'
      | error _ =>
        exact Triple.ret Holding.stable fun s _ hs => ⟨revoked, e :: failed, b', rfl,
          (hperm.cons e).trans List.perm_middle.symm, hrev, htrans, hs⟩

/-- `retireSupersededForSubjectLocked`: whatever fails, the list it writes is one that a
revocation of the subject may write. -/
theorem retireSupersededForSubjectLocked_spec {subject : Text}
    (hop : ∀ s entries, Retires ca.caCert subject s entries →
      ListDuty ca.caCert t j.op s entries) :
    Triple (writerDiscipline ca) t j (Inside t ns pruned)
      (retireSupersededForSubjectLocked ca subject) fun r s =>
        r = .ok () ∧ Inside t ns pruned s := by
  refine Triple.exists_pre fun b => Triple.exists_pre fun l =>
    Triple.attempt_bind readSuperseded_spec fun r => Triple.pure_pre fun hread => ?_
  rcases r with e | ⟨entries, corrupt⟩
  · exact Triple.ret Holding.stable fun s _ hs => ⟨rfl, hs.inside⟩
  · have hentries : entries = entriesOf l := hread _ rfl
    subst hentries
    simp only
    split
    · exact Triple.ret Holding.stable fun s _ hs => ⟨rfl, hs.inside⟩
    · refine (retireEach_spec _).seq (by rintro _ _ ⟨_, _, _, ⟨⟩, _⟩) fun failed =>
        Triple.exists_pre fun revoked => Triple.exists_pre fun _ => Triple.exists_pre fun b' =>
        Triple.pure_pre ?_
      rintro ⟨⟩
      refine Triple.pure_pre fun hperm => Triple.pure_pre fun hrev => Triple.pure_pre fun _ => ?_
      refine Triple.attempt_bind ((writeSuperseded_inside (Stable.const True)
        fun s hs _ => hop s _ ?_).strengthen fun _ hs => ⟨hs, trivial⟩) fun r =>
        Triple.ret Inside.stable fun s _ hs => ⟨rfl, hs⟩
      refine ⟨revoked, failed, ?_, ?_, ?_⟩
      · rwa [State.pending, hs.superseded]
      · rw [State.pending, hs.superseded]
      · rwa [State.listed, hs.crl]

/-- `revokeSerialLocked`, where it does not matter whether it succeeds. -/
theorem revokeSerialLocked_inside {serialStr : Text} :
    Keeps (writerDiscipline ca) t j (Inside t ns pruned) (revokeSerialLocked ca serialStr) := by
  refine Triple.exists_pre fun b => Triple.exists_pre fun l =>
    revokeSerialLocked_spec.weaken fun r s _ hr => ?_
  cases r with
  | ok _ =>
    obtain ⟨-, b', -, -, hs⟩ := hr
    exact hs.inside
  | error _ => exact hr.inside

theorem revokeLocked_spec {subject : Text}
    (hop : ∀ s entries, Retires ca.caCert subject s entries →
      ListDuty ca.caCert t j.op s entries) :
    Keeps (writerDiscipline ca) t j (Inside t ns pruned) (revokeLocked ca subject) := by
  refine (retireSupersededForSubjectLocked_spec hop).seq (fun _ _ hs => hs.2) fun _ =>
    Triple.pure_pre fun _ => quiet_bind Inside.stable aboutCRL_inside
      (Prog.only_attempt (only_ask (only_cmd (c := .latestSerialForSubject subject) trivial)))
      (fun e s _ hs => hs) fun r _ => ?_
  rcases r with e | serial
  · cases e <;> exact Keeps.fail Inside.stable
  · exact revokeSerialLocked_inside

/-! ### The sweep -/

/-- **A sweep splits what is due in three**: on the CRL by now, to be kept, and not a
number. -/
theorem drainDueLocked_spec {due : List SupersededEntry} :
    Triple (writerDiscipline ca) t j (Holding t ns b l pruned) (drainDueLocked ca due)
      fun r s => ∃ out revoked b', r = .ok out ∧ out.deferred = [] ∧
        due.Perm (revoked ++ out.failed ++ due.filter fun e => (dueNumber e).isNone) ∧
        out.revoked = revoked.length ∧
        (∀ e ∈ revoked, ∃ n ∈ listedIn ca.caCert b', dueNumber e = some n) ∧
        Holding t ns b' l pruned s := by
  have hsplit : due.Perm ((due.filter fun e => (dueNumber e).isSome) ++
      due.filter fun e => (dueNumber e).isNone) := by
    simpa using (List.filter_append_perm (fun e => (dueNumber e).isSome) due).symm
  unfold drainDueLocked
  simp only
  split
  · next hbatch =>
    refine Triple.ret Holding.stable fun s _ hs => ⟨_, [], b, rfl, rfl, ?_, rfl, by simp, hs⟩
    simpa [hbatch] using hsplit
  · refine Triple.attempt_bind appendCRLEntriesLocked_spec fun r => ?_
    cases r with
    | error e =>
      refine Triple.ret Holding.stable fun s _ hs => ⟨_, [], b, rfl, rfl, ?_, rfl, by simp, hs⟩
      simpa using hsplit
    | ok _ =>
      refine Triple.exists_pre fun b' => Triple.pure_pre fun hadd => Triple.pure_pre fun _ =>
        Triple.ret Holding.stable fun s _ hs => ⟨_, _, b', rfl, rfl, ?_, rfl, ?_, hs⟩
      · simpa using hsplit
      · intro e he
        obtain ⟨n, hn⟩ := Option.isSome_iff_exists.mp (List.mem_filter.mp he).2
        exact ⟨n, hadd (List.mem_filterMap.mpr ⟨e, he, hn⟩), hn⟩

/-- The drain takes no lock. -/
theorem takesNoLock_drainDueLocked (due : List SupersededEntry) :
    (withMutex (drainDueLocked ca due)).Only Cmd.TakesNoLock := by
  have hreads : Prog.Closed Cmd.Reads fun {α} (p : Prog α) => p.Only Cmd.TakesNoLock :=
    Prog.closed_only fun c h => by cases c <;> first | exact h.elim | trivial
  refine only_withMutex trivial trivial (closed_drainDueLocked hreads
    (closed_appendCRLEntriesLocked hreads fun _ _ => closed_signCRLLocked hreads
      (fun _ => only_cmd trivial) (fun _ => ?_) _ _) due)
  exact Prog.always_imp (local_modifyMemory _) fun c h => by
    cases c <;> first | exact h.elim | trivial

theorem sweepLocked_spec (hop : j.op = .reconcileSuperseded) :
    Triple (writerDiscipline ca) t j (fun s => Inside t ns pruned s ∧ Clocked t none s)
      (sweepLocked ca) fun _ s => Inside t ns pruned s := by
  have hduty : ∀ s entries, Sweeps ca.caCert s entries → ListDuty ca.caCert t j.op s entries := by
    intro s entries h
    rw [hop]
    exact h
  have hst : ∀ b l time, Stable (writerDiscipline ca) t fun s =>
      Holding t ns b l pruned s ∧ Clocked t time s :=
    fun _ _ _ => Holding.stable.and Clocked.stable
  refine Triple.strengthen (P := fun s => ∃ b l, Holding t ns b l pruned s ∧ Clocked t none s)
    (Triple.exists_pre fun b => Triple.exists_pre fun l => ?_)
    fun s ⟨⟨b, l, hs⟩, hclock⟩ => ⟨b, l, hs, hclock⟩
  refine readSuperseded_bind Clocked.stable (fun e s hs => hs.inside) fun corrupt => ?_
  simp only
  split
  · next hempty =>
    -- Nothing is pending: a corrupt list is replaced by an empty one, at no time in particular.
    split
    · refine (writeSuperseded_inside Clocked.stable fun s hs _ => hduty s [] ?_).seq
        (fun _ _ hs => hs) fun _ => Keeps.ret Inside.stable
      have hpending : s.pending = [] := by rw [State.pending, hs.superseded, hempty]
      exact ⟨0, [], [], [], Or.inl hpending, by simp [hpending], by simp [hpending], by simp,
        by simp⟩
    · exact Triple.ret (hst ..) fun s _ hs => hs.1.inside
  · refine Triple.call (R := fun now s => Holding t ns b l pruned s ∧ Clocked t (some now) s)
      (hst ..) (fun _ _ _ => ⟨trivial, trivial⟩) ?_ fun now => ?_
    · rintro s ch a s' - ⟨hs, hclock⟩ he
      cases he
      -- The clock has not been read under the lock before, so this reading is the one remembered.
      refine ⟨⟨hs.held, hs.crl, hs.superseded, hs.pruned⟩, fun howner => ?_⟩
      have hnone : s.holdClock = none := hclock howner
      simp [State.noteTime, hs.owner, hnone]
    change Triple _ _ _ _ (ite _ _ _) _
    split
    · exact Triple.ret (hst ..) fun s _ hs => hs.1.inside
    · refine ((withMutex_spec Holding.stable aboutCRL_holding ?_ ?_ drainDueLocked_spec).frame_only
        (takesNoLock_drainDueLocked _) Clocked.stable fun c hc s ch a s' _ _ hs he =>
          hs.effect hc (exec_effect he)).seq (by rintro _ _ ⟨⟨_, _, _, ⟨⟩, _⟩, _⟩) fun out => ?_
      · exact fun r => Stable.exists fun out => Stable.exists fun revoked => Stable.exists fun b' =>
          (Stable.const _).and <| (Stable.const _).and <| (Stable.const _).and <|
            (Stable.const _).and <| (Stable.const _).and Holding.stable
      · exact fun r => AboutCRL.exists fun out => AboutCRL.exists fun revoked =>
          AboutCRL.exists fun b' =>
            aboutCRL_holding.const_and.const_and.const_and.const_and.const_and
      · rintro s ⟨⟨_, revoked, b', ⟨⟩, hdef, hperm, -, hrev, hs⟩, hclock⟩
        rw [hdef, List.append_nil]
        refine Triple.attempt_bind (writeSuperseded_inside Clocked.stable
          fun s hs hclock => hduty s _ ?_) (fun r => ?_) s ⟨hs, hclock⟩
        · have hpending : s.pending = entriesOf l := by rw [State.pending, hs.superseded]
          rw [← hpending] at hperm ⊢
          refine ⟨now, revoked, _, _, Or.inr (hclock hs.owner),
            (List.perm_insertionSort _ _).symm.trans hperm, rfl, ?_, fun e he => ?_⟩
          · rwa [State.listed, hs.crl]
          · have hnone := dueNumber_eq_none.mp
              (Option.isNone_iff_eq_none.mp (List.mem_filter.mp he).2)
            exact ⟨hnone, fun hhex => normaliseSerial_ne_none hhex hnone⟩
        · cases r <;> exact Keeps.ret Inside.stable

/-! ### Recording -/

/-- **`recordSuperseded`**: a recording that succeeds has put its serial on the list. -/
theorem recordSuperseded_spec {subject serial : Text} {after : Duration} (hn : .crl ∉ ns)
    (hop : ∀ s entries, Records t subject serial after s entries →
      ListDuty ca.caCert t j.op s entries) :
    Triple (writerDiscipline ca) t j (Held t ns) (recordSuperseded subject serial after)
      fun r s => Held t ns s ∧ (r = .ok () → ∃ n,
        normaliseSerial serial = some (serialHexStr n) ∧ Bears (s.saved t) n) := by
  unfold recordSuperseded
  cases hserial : normaliseSerial serial with
  | none => exact Triple.fail (Held.stable ns) fun s _ hs => ⟨hs, by simp⟩
  | some canonical =>
    obtain ⟨n, hpos, rfl⟩ := exists_of_normaliseSerial hserial
    refine Triple.call (R := fun now s => Held t ns s ∧ s.clock t = now) (Held.stable ns)
      (fun _ _ _ => ⟨trivial, trivial⟩) ?_ fun now => ?_
    · rintro s ch a s' - hs he
      cases he
      exact ⟨hs, Function.update_self ..⟩
    refine (withCRLLock_spec (Q := fun r s => r = .ok () → Bears (s.saved t) n) hn clock_stable
      (fun _ _ hs => hs) ?_ ?_ (fun r s _ hs => hs) (by simp)).weaken fun r s _ hs =>
        ⟨hs.1, fun hr => ⟨n, rfl, hs.2 hr⟩⟩
    · intro b l
      refine (readSuperseded_bind clock_stable (fun e s hs => ⟨⟨b, l, [], hs⟩, by simp⟩)
        fun corrupt => ?_).strengthen fun s hs => ⟨hs.1, hs.2.2⟩
      refine (writeSuperseded_spec clock_stable fun s hs hclock => hop s _ ?_).weaken ?_
      · rw [← hs.superseded, ← hclock]
        exact ⟨_, hserial, rfl⟩
      · rintro (e | _) s - hs
        · exact ⟨⟨b, l, [], hs⟩, by simp⟩
        · refine ⟨⟨b, _, [], hs.1⟩, fun _ => ?_⟩
          rw [hs.2]
          refine ⟨_, List.mem_append_right _ (List.mem_singleton.mpr rfl), ?_⟩
          exact dueNumber_eq_some.mpr (normaliseSerial_serialHexStr hpos)
    · intro r s s' hs hrely hr
      rw [saved_stable rfl hrely]
      exact hs hr

end OpenvoxCa.Ca
