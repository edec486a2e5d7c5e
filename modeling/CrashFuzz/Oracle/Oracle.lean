import Mathlib.Tactic

/-!
The oracle (`core/src/oracle/oracle.ts`) over the acknowledgement log
(`core/src/oracle/acklog.ts`).

* `promisedBefore`: the operations the target had promised before the crash.
* `checkOracle`: the violations of one recovery.
* `checkOracle_opened_eq_nil`: an opened, intact database is silent exactly
  when every promised operation reads back with its own digest.
* `PutLog`, `Superseded`, `ReadsCurrent`: what a correct store may return when
  keys are overwritten. `silent_iff` says for which logs the oracle is silent
  on every such recovery, and `overwrite_accused` is a log where it is not.
-/

namespace CrashFuzz

/-- `AckedOperation`. -/
structure AckedOperation where
  /-- The driver's own operation number. -/
  op : ℚ
  kind : String
  key : String
  /-- SHA-256 of the value the driver wrote, empty until the operation acks. -/
  digest : String
  /-- Submission stamp of the begin marker. -/
  beganAt : ℕ
  /-- Submission stamp of the ack marker, none if the operation never acked. -/
  acknowledgedAt : Option ℕ
  /-- Whether the driver used the target's durable-commit path. -/
  durable : Bool
  deriving DecidableEq, Repr

/-- `ViolationClass`. -/
inductive ViolationClass where
  | lostAcked | corruptInvariant | recoveryFailed | phantomUnacked
  deriving DecidableEq, Repr

/-- `RecoveryResult`: what the target did when pointed at a crash image. The
values are the map from key to value digest, as read back after recovery. -/
inductive RecoveryResult where
  | opened (integrityOk : Bool) (values : String → Option String) (detail : Option String)
  | failed (detail : String)

/-- `OracleInput`. -/
structure OracleInput where
  /-- Submission stamp of the crash point. Markers share this counter. -/
  crashStamp : ℕ
  ackLog : List AckedOperation
  recovery : RecoveryResult

/-- `Violation`. -/
structure Violation where
  violationClass : ViolationClass
  crashStamp : ℕ
  op : Option ℚ
  key : String
  expected : String
  actual : String
  deriving DecidableEq, Repr

/-- `ABSENT`. -/
def absent : String := "<absent>"

/-- `promisedBefore`: the operations acknowledged durable strictly before the
crash stamp. -/
def promisedBefore (ackLog : List AckedOperation) (crashStamp : ℕ) : List AckedOperation :=
  ackLog.filter fun operation =>
    operation.durable && operation.acknowledgedAt.any (· < crashStamp)

/-- The loop of `checkOracle` over the promised operations. -/
def lostAcked (crashStamp : ℕ) (values : String → Option String)
    (promised : List AckedOperation) : List Violation :=
  promised.filterMap fun operation =>
    let actual := values operation.key
    if actual = some operation.digest then none
    else some
      { violationClass := .lostAcked
        crashStamp := crashStamp
        op := some operation.op
        key := operation.key
        expected := operation.digest
        actual := actual.getD absent }

/-- `checkOracle`. A crash point that was promised nothing cannot have lost
anything; a database that will not open is one violation, not one per key. -/
def checkOracle (input : OracleInput) : List Violation :=
  let promised := promisedBefore input.ackLog input.crashStamp
  if promised = [] then []
  else
    match input.recovery with
    | .failed detail =>
        [{ violationClass := .recoveryFailed
           crashStamp := input.crashStamp
           op := none
           key := ""
           expected := "<opens and recovers>"
           actual := detail }]
    | .opened integrityOk values detail =>
        (if integrityOk then []
         else
          [{ violationClass := .corruptInvariant
             crashStamp := input.crashStamp
             op := none
             key := ""
             expected := "<integrity check passes>"
             actual := detail.getD "<integrity check failed>" }]) ++
          lostAcked input.crashStamp values promised

/-! ### Promises and silence -/

lemma mem_promisedBefore {ackLog : List AckedOperation} {crashStamp : ℕ} {o : AckedOperation} :
    o ∈ promisedBefore ackLog crashStamp ↔
      o ∈ ackLog ∧ o.durable = true ∧ ∃ a, o.acknowledgedAt = some a ∧ a < crashStamp := by
  rw [promisedBefore, List.mem_filter, Bool.and_eq_true]
  cases o.acknowledgedAt <;> simp

lemma lostAcked_eq_nil {crashStamp : ℕ} {values : String → Option String}
    {promised : List AckedOperation} : lostAcked crashStamp values promised = [] ↔
      ∀ o ∈ promised, values o.key = some o.digest := by
  rw [lostAcked, List.filterMap_eq_nil_iff]
  refine forall₂_congr fun o _ => ?_
  by_cases h : values o.key = some o.digest <;> simp [h]

/-- An opened, intact database is silent exactly when every promised operation
reads back with its own digest. -/
lemma checkOracle_opened_eq_nil {crashStamp : ℕ} {ackLog : List AckedOperation}
    {values : String → Option String} {detail : Option String} :
    checkOracle ⟨crashStamp, ackLog, .opened true values detail⟩ = [] ↔
      ∀ o ∈ promisedBefore ackLog crashStamp, values o.key = some o.digest := by
  rw [checkOracle]
  by_cases hnone : promisedBefore ackLog crashStamp = []
  · simp [hnone]
  · simp [hnone, lostAcked_eq_nil]

/-- A violation is a lost operation that was promised, or it names none. -/
lemma cases_of_mem_checkOracle {input : OracleInput} {v : Violation} (h : v ∈ checkOracle input) :
    (v.op = none ∧ v.violationClass ≠ .lostAcked) ∨
      ∃ o ∈ promisedBefore input.ackLog input.crashStamp,
        v.op = some o.op ∧ v.key = o.key ∧ v.violationClass = .lostAcked := by
  rw [checkOracle] at h
  split at h
  · cases h
  · split at h
    · rw [List.mem_singleton] at h
      subst h
      exact .inl ⟨rfl, nofun⟩
    · rcases List.mem_append.mp h with h | h
      · split at h
        · cases h
        · rw [List.mem_singleton] at h
          subst h
          exact .inl ⟨rfl, nofun⟩
      · obtain ⟨o, ho, hv⟩ := List.mem_filterMap.mp h
        dsimp only at hv
        split at hv
        · cases hv
        · cases hv
          exact .inr ⟨o, ho, rfl, rfl, rfl⟩

/-! ### Overwritten keys -/

/-- The acknowledgement log of a workload of puts, with what each put wrote:
the log holds the digest of a put once it acknowledged, and no put was
acknowledged before it began. -/
structure PutLog where
  ops : List AckedOperation
  /-- The digest of the value a put wrote. -/
  written : AckedOperation → String
  kind_eq : ∀ p ∈ ops, p.kind = "put"
  digest_eq : ∀ p ∈ ops, p.acknowledgedAt ≠ none → p.digest = written p
  ordered : ∀ p ∈ ops, ∀ a, p.acknowledgedAt = some a → p.beganAt ≤ a

namespace PutLog

variable (log : PutLog) (crashStamp : ℕ)

/-- A durable put on the same key began after `p` was acknowledged, and was
itself acknowledged before the crash. -/
def Superseded (p : AckedOperation) : Prop :=
  ∃ a, p.acknowledgedAt = some a ∧
    ∃ q ∈ promisedBefore log.ops crashStamp, q.key = p.key ∧ a < q.beganAt

/-- Each key with a promised put reads back as what some put on it wrote that
is not superseded: all a correct store can be held to. -/
def ReadsCurrent (values : String → Option String) : Prop :=
  ∀ o ∈ promisedBefore log.ops crashStamp, ∃ p ∈ log.ops,
    p.key = o.key ∧ ¬ log.Superseded crashStamp p ∧ values o.key = some (log.written p)

variable {log crashStamp}

lemma digest_of_promised {o : AckedOperation} (h : o ∈ promisedBefore log.ops crashStamp) :
    o.digest = log.written o := by
  obtain ⟨hmem, -, a, ha, -⟩ := mem_promisedBefore.mp h
  exact log.digest_eq o hmem (by simp [ha])

/-- Every key with a promised put has a promised put that is not superseded:
the one acknowledged last. -/
lemma exists_current {o : AckedOperation} (ho : o ∈ promisedBefore log.ops crashStamp) :
    ∃ p ∈ log.ops, p.key = o.key ∧ ¬ log.Superseded crashStamp p := by
  obtain ⟨p, hp, hmax⟩ := Finset.exists_max_image
    ((promisedBefore log.ops crashStamp).filter (·.key = o.key)).toFinset
    (fun p => p.acknowledgedAt.getD 0) ⟨o, by simpa using ho⟩
  obtain ⟨hprom, hkey⟩ : p ∈ promisedBefore log.ops crashStamp ∧ p.key = o.key := by
    simpa using hp
  refine ⟨p, (mem_promisedBefore.mp hprom).1, hkey, ?_⟩
  rintro ⟨a, ha, q, hq, hqkey, hlater⟩
  obtain ⟨hqmem, -, b, hb, -⟩ := mem_promisedBefore.mp hq
  have hqb := log.ordered q hqmem b hb
  have hle := hmax q (by simpa using ⟨hq, hqkey.trans hkey⟩)
  simp only [ha, hb, Option.getD_some] at hle
  omega

/-- **When overwriting is safe to judge.** The oracle is silent on every
recovery a correct store may return exactly when no key has two different
values in play: whatever put on a key is not superseded wrote what every
promised put on that key wrote. -/
theorem silent_iff (log : PutLog) (crashStamp : ℕ) :
    (∀ values detail, log.ReadsCurrent crashStamp values →
      checkOracle ⟨crashStamp, log.ops, .opened true values detail⟩ = []) ↔
    ∀ o ∈ promisedBefore log.ops crashStamp, ∀ p ∈ log.ops, p.key = o.key →
      ¬ log.Superseded crashStamp p → log.written p = log.written o := by
  classical
  constructor
  · intro h o ho p hp hkey hcur
    -- the recovery that returns `p` for its key and something current elsewhere
    let current (key : String) : Option String :=
      if hc : ∃ q ∈ log.ops, q.key = key ∧ ¬ log.Superseded crashStamp q
      then some (log.written hc.choose) else none
    let values (key : String) : Option String :=
      if key = o.key then some (log.written p) else current key
    have hreads : log.ReadsCurrent crashStamp values := by
      intro o' ho'
      by_cases hsame : o'.key = o.key
      · exact ⟨p, hp, hkey.trans hsame.symm, hcur, by simp [values, hsame]⟩
      · have hc := exists_current ho'
        obtain ⟨hq, hqkey, hqcur⟩ := hc.choose_spec
        exact ⟨hc.choose, hq, hqkey, hqcur,
          by simp only [values, current, hsame, if_false, hc, dif_pos]⟩
    have hread := checkOracle_opened_eq_nil.mp (h values none hreads) o ho
    simpa [values, digest_of_promised ho] using hread
  · intro h values detail hreads
    refine checkOracle_opened_eq_nil.mpr fun o ho => ?_
    obtain ⟨p, hp, hkey, hcur, hval⟩ := hreads o ho
    rw [hval, h o ho p hp hkey hcur, digest_of_promised ho]

/-- Two durable puts on one key, one after the other. -/
def overwriteLog : PutLog where
  ops := [⟨1, "put", "k", "v1", 0, some 1, true⟩, ⟨2, "put", "k", "v2", 2, some 3, true⟩]
  written := (·.digest)
  kind_eq := by decide
  digest_eq := by simp
  ordered := by simp

/-- A recovery that returns the value of the last durable put on the key is
accused of having lost the first one. -/
theorem overwrite_accused :
    overwriteLog.ReadsCurrent 4 (fun key => if key = "k" then some "v2" else none) ∧
      checkOracle ⟨4, overwriteLog.ops,
          .opened true (fun key => if key = "k" then some "v2" else none) none⟩ =
        [⟨.lostAcked, 4, some 1, "k", "v1", "v2"⟩] := by
  refine ⟨fun o ho => ⟨⟨2, "put", "k", "v2", 2, some 3, true⟩, by decide, ?_, ?_, ?_⟩, by decide⟩
  · have hk : ∀ o ∈ promisedBefore overwriteLog.ops 4, "k" = o.key := by decide
    exact hk o ho
  · rintro ⟨a, ha, hlater⟩
    obtain rfl : 3 = a := by simpa using ha
    revert hlater
    decide
  · have hk : ∀ o ∈ promisedBefore overwriteLog.ops 4, o.key = "k" := by decide
    simp [hk o ho, overwriteLog]

end PutLog

end CrashFuzz
