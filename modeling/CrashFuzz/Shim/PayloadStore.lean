import CrashFuzz.Lib.FileTree
import CrashFuzz.Lib.Runs
import CrashFuzz.Shim.Errno
import CrashFuzz.Shim.Sha256

/-!
The payload store (`shim/src/shim.c`, `store_payload`) under threads that capture
payloads at the same time.

* `PayloadStore`: the objects by their names, and where each thread stands in
  its call. `PayloadStore.step`: one system call of a thread returns.
* `Taken`: what a step can do.
* `Inv`: an object that is being written holds what its one writer has written.
* `Whole`: the other objects are whole payloads, as long as no write fails.
* `BrokenOff`: an object whose writer gave up stays as it is.
* `sound_iff`: the store is sound exactly after the runs without such a write.
-/

namespace CrashFuzz.Shim

open FileTree.Volume (splice splice_length)
open Interposed (eexist)

/-- The system call a thread makes next in `store_payload`. -/
inductive StoreCall where
  | openat
  | write
  | close
  deriving DecidableEq, Repr

/-- A call of `store_payload`, with its arguments and its variable `written`. -/
structure Storing where
  data : List UInt8
  digest : String
  written : ℕ
  next : StoreCall
  /-- The errors of its system calls so far. -/
  failures : List ℤ
  deriving DecidableEq

namespace Storing

variable (c : Storing)

/-- The head of the loop. -/
def loopHead (written : ℕ) : Storing :=
  { c with written := written, next := if written < c.data.length then .write else .close }

/-- After a system call that returned `result`. -/
def met (result errno : ℤ) : Storing :=
  if result < 0 then { c with failures := c.failures ++ [errno] } else c

variable {c} {written : ℕ} {result errno : ℤ}

lemma next_loopHead_eq_write_iff :
    (c.loopHead written).next = .write ↔ written < c.data.length := by
  rw [loopHead]
  split_ifs with h <;> simp [h]

lemma next_loopHead_eq_close_iff :
    (c.loopHead written).next = .close ↔ c.data.length ≤ written := by
  rw [loopHead]
  split_ifs with h
  · simpa using h
  · simpa using h

lemma next_loopHead_ne_openat : (c.loopHead written).next ≠ .openat := by
  rw [loopHead]
  split_ifs <;> simp

@[simp] lemma data_met : (c.met result errno).data = c.data := by
  rw [met]
  split_ifs <;> rfl

@[simp] lemma digest_met : (c.met result errno).digest = c.digest := by
  rw [met]
  split_ifs <;> rfl

@[simp] lemma written_met : (c.met result errno).written = c.written := by
  rw [met]
  split_ifs <;> rfl

end Storing

/-- The objects in `cas_dir` by their names, the calls that are in progress, and
those that returned. -/
structure PayloadStore (τ : Type) where
  objects : String → Option (List UInt8)
  calls : τ → Option Storing
  returned : List Storing

/-- What happens next: a thread captures a payload, or its system call returns. -/
inductive StoreEvent (τ : Type) where
  | capture (t : τ) (data : List UInt8)
  | openat (t : τ) (result errno : ℤ)
  | write (t : τ) (result errno : ℤ)
  | close (t : τ) (result errno : ℤ)

/-- The path of an object, if there is a store and the path fits. -/
def storePath (casDir digest : String) : Option String :=
  if casDir = "" then none
  else if casDir.utf8ByteSize + 1 + digest.utf8ByteSize ≥ pathMax then none
  else some (casDir ++ "/" ++ digest)

namespace PayloadStore

variable {τ : Type} [DecidableEq τ]

/-- An empty store. -/
def empty : PayloadStore τ := ⟨fun _ => none, fun _ => none, []⟩

def setCall (s : PayloadStore τ) (t : τ) (c : Storing) : PayloadStore τ :=
  { s with calls := Function.update s.calls t (some c) }

def setObject (s : PayloadStore τ) (name : String) (bytes : List UInt8) : PayloadStore τ :=
  { s with objects := Function.update s.objects name (some bytes) }

/-- The call of a thread returns. -/
def leave (s : PayloadStore τ) (t : τ) (c : Storing) : PayloadStore τ :=
  { s with calls := Function.update s.calls t none, returned := c :: s.returned }

variable (casDir : String) (sha256 : List UInt8 → String)

/-- The call that `capture_payload` makes. -/
def entering (data : List UInt8) : Storing := ⟨data, sha256 data, 0, .openat, []⟩

/-- `capture_payload`, and `store_payload` up to its first system call. -/
def capture (s : PayloadStore τ) (t : τ) (data : List UInt8) : PayloadStore τ :=
  if storePath casDir (sha256 data) = none then s.leave t (entering sha256 data)
  else s.setCall t (entering sha256 data)

/-- The open returned. The system says `EEXIST` only of a name that is there,
and with `O_EXCL` it opens none that is. -/
def openat (s : PayloadStore τ) (t : τ) (c : Storing) (result errno : ℤ) :
    Option (PayloadStore τ) :=
  if result < 0 then
    if errno = eexist ∧ s.objects c.digest = none then none
    else some (s.leave t (c.met result errno))
  else if s.objects c.digest = none then
    some ((s.setObject c.digest []).setCall t (c.loopHead 0))
  else none

/-- A write returned, at most the length that was asked for. It wrote at the
position of the descriptor. -/
def write (s : PayloadStore τ) (t : τ) (c : Storing) (result errno : ℤ) :
    Option (PayloadStore τ) :=
  if result > (c.data.length - c.written : ℕ) then none
  else if result ≤ 0 then some (s.setCall t { c.met result errno with next := .close })
  else
    let bytes := splice ((s.objects c.digest).getD []) c.written
      ((c.data.drop c.written).take result.toNat)
    some ((s.setObject c.digest bytes).setCall t (c.loopHead (c.written + result.toNat)))

/-- One step of a thread. -/
def step (s : PayloadStore τ) : StoreEvent τ → Option (PayloadStore τ)
  | .capture t data => if s.calls t = none then some (s.capture casDir sha256 t data) else none
  | .openat t result errno =>
      ((s.calls t).filter (·.next = .openat)).bind fun c => s.openat t c result errno
  | .write t result errno =>
      ((s.calls t).filter (·.next = .write)).bind fun c => s.write t c result errno
  | .close t result errno =>
      ((s.calls t).filter (·.next = .close)).map fun c => s.leave t (c.met result errno)

/-- What the replayer relies on: the bytes of an object are those its name is the
digest of, and a payload that was stored without a failure is there in full. To
find the object there counts as none. -/
structure Sound (s : PayloadStore τ) : Prop where
  named : ∀ name bytes, s.objects name = some bytes → sha256 bytes = name
  present : ∀ c ∈ s.returned, (∀ e ∈ c.failures, e = eexist) →
    s.objects (sha256 c.data) = some c.data

/-- What a step can do. -/
inductive Taken (s : PayloadStore τ) : StoreEvent τ → PayloadStore τ → Prop where
  | passed {t : τ} {data : List UInt8} (hfree : s.calls t = none)
      (hpath : storePath casDir (sha256 data) = none) :
      Taken s (.capture t data) (s.leave t (entering sha256 data))
  | entered {t : τ} {data : List UInt8} (hfree : s.calls t = none)
      (hpath : storePath casDir (sha256 data) ≠ none) :
      Taken s (.capture t data) (s.setCall t (entering sha256 data))
  | refused {t : τ} {c : Storing} {result errno : ℤ} (hcall : s.calls t = some c)
      (hnext : c.next = .openat) (hresult : result < 0)
      (hexist : errno = eexist → s.objects c.digest ≠ none) :
      Taken s (.openat t result errno) (s.leave t (c.met result errno))
  | created {t : τ} {c : Storing} {result errno : ℤ} (hcall : s.calls t = some c)
      (hnext : c.next = .openat) (hnew : s.objects c.digest = none) :
      Taken s (.openat t result errno) ((s.setObject c.digest []).setCall t (c.loopHead 0))
  | gaveUp {t : τ} {c : Storing} {result errno : ℤ} (hcall : s.calls t = some c)
      (hnext : c.next = .write) (hresult : result ≤ 0) :
      Taken s (.write t result errno) (s.setCall t { c.met result errno with next := .close })
  | wrote {t : τ} {c : Storing} {result errno : ℤ} (hcall : s.calls t = some c)
      (hnext : c.next = .write) (hresult : 0 < result)
      (hmost : c.written + result.toNat ≤ c.data.length) :
      Taken s (.write t result errno)
        ((s.setObject c.digest (splice ((s.objects c.digest).getD []) c.written
          ((c.data.drop c.written).take result.toNat))).setCall t
            (c.loopHead (c.written + result.toNat)))
  | closed {t : τ} {c : Storing} {result errno : ℤ} (hcall : s.calls t = some c)
      (hnext : c.next = .close) :
      Taken s (.close t result errno) (s.leave t (c.met result errno))

variable {casDir sha256} {s s' : PayloadStore τ} {t t' : τ} {c c' : Storing} {e : StoreEvent τ}

/-- **Every step does one of these.** -/
lemma taken_of_step (h : s.step casDir sha256 e = some s') : Taken casDir sha256 s e s' := by
  cases e with
  | capture t data =>
      rw [step] at h
      split_ifs at h with hfree
      obtain rfl := Option.some.inj h
      rw [capture]
      by_cases hpath : storePath casDir (sha256 data) = none
      · rw [if_pos hpath]
        exact .passed hfree hpath
      · rw [if_neg hpath]
        exact .entered hfree hpath
  | openat t result errno =>
      obtain ⟨c, hc, hopen⟩ := Option.bind_eq_some_iff.mp h
      obtain ⟨hcall, hnext⟩ := Option.filter_eq_some_iff.mp hc
      rw [decide_eq_true_eq] at hnext
      rw [openat] at hopen
      split_ifs at hopen with hresult hexist hnew
      · obtain rfl := Option.some.inj hopen
        exact .refused hcall hnext hresult fun he hnone => hexist ⟨he, hnone⟩
      · obtain rfl := Option.some.inj hopen
        exact .created hcall hnext hnew
  | write t result errno =>
      obtain ⟨c, hc, hwrite⟩ := Option.bind_eq_some_iff.mp h
      obtain ⟨hcall, hnext⟩ := Option.filter_eq_some_iff.mp hc
      rw [decide_eq_true_eq] at hnext
      rw [write] at hwrite
      split_ifs at hwrite with hmost hresult
      · obtain rfl := Option.some.inj hwrite
        exact .gaveUp hcall hnext hresult
      · obtain rfl := Option.some.inj hwrite
        exact .wrote hcall hnext (by omega) (by omega)
  | close t result errno =>
      obtain ⟨c, hc, rfl⟩ := Option.map_eq_some_iff.mp h
      obtain ⟨hcall, hnext⟩ := Option.filter_eq_some_iff.mp hc
      rw [decide_eq_true_eq] at hnext
      exact .closed hcall hnext

/-! ### One writer for each object -/

/-- A thread that has an object open. -/
def Holds (s : PayloadStore τ) (t : τ) (c : Storing) : Prop :=
  s.calls t = some c ∧ c.next ≠ .openat

variable (casDir sha256) in
/-- What every run keeps: an object that is open holds what its one writer has
written, and a call without a failure but `EEXIST` leaves an object. -/
structure Inv (captured : Set (List UInt8)) (s : PayloadStore τ) : Prop where
  entered : ∀ t c, s.calls t = some c →
    c.data ∈ captured ∧ c.digest = sha256 c.data ∧ storePath casDir c.digest ≠ none
  held : ∀ t c, Holds s t c → s.objects c.digest = some (c.data.take c.written)
  bounded : ∀ t c, s.calls t = some c → c.written ≤ c.data.length ∧
    (c.next = .write → c.written < c.data.length)
  alone : ∀ t c t' c', Holds s t c → Holds s t' c' → c.digest = c'.digest → t = t'
  fits : ∀ name, s.objects name ≠ none → storePath casDir name ≠ none
  stored : ∀ c ∈ s.returned, c.data ∈ captured ∧ (storePath casDir (sha256 c.data) ≠ none →
    (∀ e ∈ c.failures, e = eexist) → s.objects (sha256 c.data) ≠ none)

lemma calls_setCall :
    (s.setCall t c).calls t' = if t' = t then some c else s.calls t' :=
  Function.update_apply s.calls t (some c) t'

lemma calls_leave : (s.leave t c).calls t' = if t' = t then none else s.calls t' :=
  Function.update_apply s.calls t none t'

omit [DecidableEq τ] in
lemma objects_setObject {name name' : String} {bytes : List UInt8} :
    (s.setObject name bytes).objects name' =
      if name' = name then some bytes else s.objects name' :=
  Function.update_apply s.objects name (some bytes) name'

/-- The calls that are in progress after one returned. -/
lemma calls_of_leave (h : (s.leave t c).calls t' = some c') : t' ≠ t ∧ s.calls t' = some c' := by
  rw [calls_leave] at h
  split_ifs at h with ht
  exact ⟨ht, h⟩

/-- The calls that are in progress after one went on. -/
lemma calls_of_setCall (h : (s.setCall t c).calls t' = some c') :
    t' = t ∧ c' = c ∨ t' ≠ t ∧ s.calls t' = some c' := by
  rw [calls_setCall] at h
  split_ifs at h with ht
  · exact .inl ⟨ht, (Option.some.inj h).symm⟩
  · exact .inr ⟨ht, h⟩

/-- Who holds an object after a call went on. -/
lemma Holds.of_setCall (h : Holds (s.setCall t c) t' c') :
    t' = t ∧ c' = c ∨ t' ≠ t ∧ Holds s t' c' :=
  (calls_of_setCall h.1).imp_right fun hc' => ⟨hc'.1, hc'.2, h.2⟩

/-- A call that returns keeps the invariant, if it left an object or failed. -/
lemma Inv.leave {captured : Set (List UInt8)} (h : Inv casDir sha256 captured s)
    (hdata : c.data ∈ captured)
    (hstored : storePath casDir (sha256 c.data) ≠ none → (∀ e ∈ c.failures, e = eexist) →
      s.objects (sha256 c.data) ≠ none) :
    Inv casDir sha256 captured (s.leave t c) := by
  have hcalls : ∀ t' c', (s.leave t c).calls t' = some c' → s.calls t' = some c' :=
    fun t' c' hc' => (calls_of_leave hc').2
  refine ⟨fun t' c' hc' => h.entered t' c' (hcalls t' c' hc'), fun t' c' hc' => ?_,
    fun t' c' hc' => h.bounded t' c' (hcalls t' c' hc'), fun t₁ c₁ t₂ c₂ h₁ h₂ => ?_, h.fits,
    List.forall_mem_cons.mpr ⟨⟨hdata, hstored⟩, h.stored⟩⟩
  · exact h.held t' c' ⟨hcalls t' c' hc'.1, hc'.2⟩
  · exact h.alone t₁ c₁ t₂ c₂ ⟨hcalls t₁ c₁ h₁.1, h₁.2⟩ ⟨hcalls t₂ c₂ h₂.1, h₂.2⟩

/-- So does one that begins. -/
lemma Inv.enter {captured : Set (List UInt8)} {data : List UInt8}
    (h : Inv casDir sha256 captured s) (hdata : data ∈ captured)
    (hpath : storePath casDir (sha256 data) ≠ none) :
    Inv casDir sha256 captured (s.setCall t (entering sha256 data)) := by
  have hholds : ∀ t' c', Holds (s.setCall t (entering sha256 data)) t' c' → Holds s t' c' := by
    intro t' c' hc'
    rcases hc'.of_setCall with ⟨-, rfl⟩ | ⟨-, hold⟩
    · exact absurd rfl hc'.2
    · exact hold
  refine ⟨fun t' c' hc' => ?_, fun t' c' hc' => h.held t' c' (hholds t' c' hc'),
    fun t' c' hc' => ?_, fun t₁ c₁ t₂ c₂ h₁ h₂ => ?_, h.fits, h.stored⟩
  · rcases calls_of_setCall hc' with ⟨-, rfl⟩ | ⟨-, hold⟩
    · exact ⟨hdata, rfl, hpath⟩
    · exact h.entered t' c' hold
  · rcases calls_of_setCall hc' with ⟨-, rfl⟩ | ⟨-, hold⟩
    · exact ⟨Nat.zero_le _, nofun⟩
    · exact h.bounded t' c' hold
  · exact h.alone t₁ c₁ t₂ c₂ (hholds t₁ c₁ h₁) (hholds t₂ c₂ h₂)

/-- So does one that wrote, when no other thread has its object open. -/
lemma Inv.hold {captured : Set (List UInt8)} (h : Inv casDir sha256 captured s)
    (hentered : c.data ∈ captured ∧ c.digest = sha256 c.data ∧ storePath casDir c.digest ≠ none)
    (hbounded : c.written ≤ c.data.length ∧ (c.next = .write → c.written < c.data.length))
    (halone : ∀ t' c', Holds s t' c' → c'.digest = c.digest → t' = t) :
    Inv casDir sha256 captured
      ((s.setObject c.digest (c.data.take c.written)).setCall t c) := by
  have hkept : ∀ name, s.objects name ≠ none →
      (s.setObject c.digest (c.data.take c.written)).objects name ≠ none := by
    intro name hname
    rw [objects_setObject]
    split_ifs
    · exact Option.some_ne_none _
    · exact hname
  refine ⟨fun t' c' hc' => ?_, fun t' c' hc' => ?_, fun t' c' hc' => ?_,
    fun t₁ c₁ t₂ c₂ h₁ h₂ hdigest => ?_, fun name hname => ?_, fun r hr => ?_⟩
  · rcases calls_of_setCall hc' with ⟨-, rfl⟩ | ⟨-, hold⟩
    · exact hentered
    · exact h.entered t' c' hold
  · have hobject : ((s.setObject c.digest (c.data.take c.written)).setCall t c).objects c'.digest =
        if c'.digest = c.digest then some (c.data.take c.written) else s.objects c'.digest :=
      objects_setObject
    rw [hobject]
    rcases hc'.of_setCall with ⟨-, rfl⟩ | ⟨ht, hold⟩
    · rw [if_pos rfl]
    · rw [if_neg fun hdigest => ht (halone t' c' hold hdigest)]
      exact h.held t' c' hold
  · rcases calls_of_setCall hc' with ⟨-, rfl⟩ | ⟨-, hold⟩
    · exact hbounded
    · exact h.bounded t' c' hold
  · rcases h₁.of_setCall with ⟨rfl, rfl⟩ | ⟨-, hold₁⟩
    · rcases h₂.of_setCall with ⟨rfl, -⟩ | ⟨-, hold₂⟩
      · rfl
      · exact (halone t₂ c₂ hold₂ hdigest.symm).symm
    · rcases h₂.of_setCall with ⟨rfl, rfl⟩ | ⟨-, hold₂⟩
      · exact halone t₁ c₁ hold₁ hdigest
      · exact h.alone t₁ c₁ t₂ c₂ hold₁ hold₂ hdigest
  · by_cases hdigest : name = c.digest
    · rw [hdigest]
      exact hentered.2.2
    · refine h.fits name fun hnone => hname ?_
      exact objects_setObject.trans ((if_neg hdigest).trans hnone)
  · exact ⟨(h.stored r hr).1, fun hpath hclean => hkept _ ((h.stored r hr).2 hpath hclean)⟩

/-- The bytes after the start of a payload was written. -/
lemma splice_take {data : List UInt8} {written n : ℕ} (h : written ≤ data.length) :
    splice (data.take written) written ((data.drop written).take n) =
      data.take (written + n) := by
  have hlength : (data.take written).length = written := List.length_take_of_le h
  have hsplice := splice_length (data.take written) ((data.drop written).take n)
  rw [hlength] at hsplice
  rw [hsplice, List.take_add]

omit [DecidableEq τ] in
/-- What a thread holds is what it has written. -/
lemma setObject_held {captured : Set (List UInt8)} (h : Inv casDir sha256 captured s)
    (hc : Holds s t c) : s.setObject c.digest (c.data.take c.written) = s := by
  rw [setObject, ← h.held t c hc, Function.update_eq_self]

/-- The payloads that are captured by some events. -/
def capturedBy (events : List (StoreEvent τ)) : Set (List UInt8) :=
  {data | ∃ t, .capture t data ∈ events}

/-- **One step** keeps the invariant. -/
lemma Inv.step {captured : Set (List UInt8)} (h : Inv casDir sha256 captured s)
    (he : ∀ t data, e = .capture t data → data ∈ captured)
    (hstep : s.step casDir sha256 e = some s') : Inv casDir sha256 captured s' := by
  cases taken_of_step hstep with
  | @passed t data _ hpath => exact h.leave (he t data rfl) fun hfits => absurd hpath hfits
  | @entered t data _ hpath => exact h.enter (he t data rfl) hpath
  | @refused t c result errno hcall _ hresult hexist =>
      obtain ⟨hdata, hdigest, -⟩ := h.entered t c hcall
      have hmet : c.met result errno = { c with failures := c.failures ++ [errno] } :=
        if_pos hresult
      rw [hmet]
      refine h.leave hdata fun _ hclean => ?_
      rw [← hdigest]
      exact hexist (hclean errno (List.mem_append_right _ List.mem_cons_self))
  | @created t c _ _ hcall _ hnew =>
      refine h.hold (c := c.loopHead 0) (h.entered t c hcall)
        ⟨Nat.zero_le _, Storing.next_loopHead_eq_write_iff.mp⟩ fun t' c' hc' hdigest => ?_
      have hheld := h.held t' c' hc'
      rw [hdigest] at hheld
      exact absurd (hheld.symm.trans hnew) (Option.some_ne_none _)
  | @gaveUp t c result errno hcall hnext _ =>
      have hholds : Holds s t c := ⟨hcall, hnext ▸ StoreCall.noConfusion⟩
      have hnew := h.hold (t := t) (c := { c.met result errno with next := .close })
        (by simpa using h.entered t c hcall) ⟨by simpa using (h.bounded t c hcall).1, nofun⟩
        fun t' c' hc' hdigest => h.alone t' c' t c hc' hholds (by simpa using hdigest)
      simpa [setObject_held h hholds] using hnew
  | @wrote t c result errno hcall hnext hresult hmost =>
      have hholds : Holds s t c := ⟨hcall, hnext ▸ StoreCall.noConfusion⟩
      rw [h.held t c hholds, Option.getD_some, splice_take (h.bounded t c hcall).1]
      exact h.hold (c := c.loopHead (c.written + result.toNat)) (h.entered t c hcall)
        ⟨hmost, Storing.next_loopHead_eq_write_iff.mp⟩
        fun t' c' hc' hdigest => h.alone t' c' t c hc' hholds hdigest
  | @closed t c result errno hcall hnext =>
      obtain ⟨hdata, hdigest, -⟩ := h.entered t c hcall
      have hheld := h.held t c ⟨hcall, hnext ▸ StoreCall.noConfusion⟩
      refine h.leave (by rwa [Storing.data_met]) fun _ _ => ?_
      rw [Storing.data_met, ← hdigest, hheld]
      exact Option.some_ne_none _

omit [DecidableEq τ] in
lemma inv_empty {captured : Set (List UInt8)} :
    Inv casDir sha256 captured (empty : PayloadStore τ) :=
  ⟨nofun, fun _ _ h => (Option.some_ne_none _ h.1.symm).elim, nofun,
    fun _ _ _ _ h => (Option.some_ne_none _ h.1.symm).elim, fun _ h => absurd rfl h, nofun⟩

/-- **The invariant of a run** from the empty store. -/
lemma run_inv {captured : Set (List UInt8)} {events : List (StoreEvent τ)}
    (hcaptured : capturedBy events ⊆ captured)
    (hrun : events.foldlM (step casDir sha256) empty = some s) :
    Inv casDir sha256 captured s := by
  refine Runs.induct (fun _ events => capturedBy events ⊆ captured)
    (fun s e events m h hsub hm => ⟨h.step (fun t data he => hsub ⟨t, ?_⟩) hm, ?_⟩)
    inv_empty hcaptured hrun
  · rw [he]
    exact List.mem_cons_self
  · exact fun data ⟨t, ht⟩ => hsub ⟨t, List.mem_cons_of_mem e ht⟩

/-! ### Runs in which no write fails -/

variable (sha256) in
/-- The objects that no thread has open are whole. -/
structure Whole (captured : Set (List UInt8)) (s : PayloadStore τ) : Prop where
  closing : ∀ t c, s.calls t = some c → c.next = .close → c.written = c.data.length
  whole : ∀ name bytes, s.objects name = some bytes →
    (∃ t c, Holds s t c ∧ c.digest = name) ∨ bytes ∈ captured ∧ sha256 bytes = name

lemma Holds.leave (h : Holds s t' c') (ht : t' ≠ t) : Holds (s.leave t c) t' c' :=
  ⟨calls_leave.trans ((if_neg ht).trans h.1), h.2⟩

lemma Holds.setCall (h : Holds s t' c') (ht : t' ≠ t) : Holds (s.setCall t c) t' c' :=
  ⟨calls_setCall.trans ((if_neg ht).trans h.1), h.2⟩

/-- A thread that holds nothing returns. -/
lemma Whole.leave {captured : Set (List UInt8)} (h : Whole sha256 captured s)
    (ht : ∀ c', ¬Holds s t c') : Whole sha256 captured (s.leave t c) where
  closing t' c' hc' := h.closing t' c' (calls_of_leave hc').2
  whole name bytes hbytes := by
    rcases h.whole name bytes hbytes with ⟨t', c', hc', hdigest⟩ | hwhole
    · refine .inl ⟨t', c', hc'.leave fun heq => ?_, hdigest⟩
      rw [heq] at hc'
      exact ht c' hc'
    · exact .inr hwhole

/-- So does a thread that has its object open. -/
lemma Whole.hold {captured : Set (List UInt8)} {bytes : List UInt8}
    (h : Whole sha256 captured s) (hopen : c.next ≠ .openat)
    (hclosing : c.next = .close → c.written = c.data.length)
    (hown : ∀ c', Holds s t c' → c'.digest = c.digest) :
    Whole sha256 captured ((s.setObject c.digest bytes).setCall t c) where
  closing t' c' hc' hnext := by
    rcases calls_of_setCall hc' with ⟨-, rfl⟩ | ⟨-, hold⟩
    · exact hclosing hnext
    · exact h.closing t' c' hold hnext
  whole name bytes' hbytes := by
    by_cases hname : name = c.digest
    · exact .inl ⟨t, c, ⟨calls_setCall.trans (if_pos rfl), hopen⟩, hname.symm⟩
    · have hold : s.objects name = some bytes' :=
        (objects_setObject.trans (if_neg hname)).symm.trans hbytes
      refine (h.whole name bytes' hold).imp_left fun ⟨t', c', hc', hdigest⟩ =>
        ⟨t', c', Holds.setCall hc' fun heq => hname ?_, hdigest⟩
      rw [heq] at hc'
      exact hdigest.symm.trans (hown c' hc')

/-- **A step** that is no failed write keeps the objects whole. -/
lemma Whole.step {captured : Set (List UInt8)} (h : Whole sha256 captured s)
    (hinv : Inv casDir sha256 captured s)
    (he : ∀ t result errno, e = .write t result errno → 0 < result)
    (hstep : s.step casDir sha256 e = some s') : Whole sha256 captured s' := by
  cases taken_of_step hstep with
  | @passed t data hfree _ =>
      exact h.leave fun c' hc' => Option.some_ne_none _ (hc'.1.symm.trans hfree)
  | @entered t data hfree _ =>
      refine ⟨fun t' c' hc' hnext => ?_, fun name bytes hbytes => ?_⟩
      · rcases calls_of_setCall hc' with ⟨-, rfl⟩ | ⟨-, hold⟩
        · cases hnext
        · exact h.closing t' c' hold hnext
      · refine (h.whole name bytes hbytes).imp_left fun ⟨t', c', hc', hdigest⟩ =>
          ⟨t', c', hc'.setCall fun heq => ?_, hdigest⟩
        rw [heq] at hc'
        exact Option.some_ne_none _ (hc'.1.symm.trans hfree)
  | @refused t c _ _ hcall hnext _ _ =>
      refine h.leave fun c' hc' => hc'.2 ?_
      rw [← Option.some.inj (hcall.symm.trans hc'.1), hnext]
  | @created t c _ _ hcall hnext hnew =>
      refine h.hold (c := c.loopHead 0) Storing.next_loopHead_ne_openat (fun hclose => ?_)
        fun c' hc' => absurd ?_ hc'.2
      · exact (Nat.le_zero.mp (Storing.next_loopHead_eq_close_iff.mp hclose)).symm
      · rw [← Option.some.inj (hcall.symm.trans hc'.1), hnext]
  | @gaveUp t c result errno _ _ hresult =>
      exact absurd (he t result errno rfl) (not_lt.mpr hresult)
  | @wrote t c result errno hcall hnext hresult hmost =>
      refine h.hold (c := c.loopHead (c.written + result.toNat)) Storing.next_loopHead_ne_openat
        (fun hclose => ?_) fun c' hc' => ?_
      · exact hmost.antisymm (Storing.next_loopHead_eq_close_iff.mp hclose)
      · rw [← Option.some.inj (hcall.symm.trans hc'.1)]
        rfl
  | @closed t c _ _ hcall hnext =>
      have hholds : Holds s t c := ⟨hcall, hnext ▸ StoreCall.noConfusion⟩
      refine ⟨fun t' c' hc' => h.closing t' c' (calls_of_leave hc').2, fun name bytes hbytes => ?_⟩
      have hkept : s.objects name = some bytes := hbytes
      rcases h.whole name bytes hkept with ⟨t', c', hc', hdigest⟩ | hwhole
      · by_cases heq : t' = t
        · -- the object that is closed now holds all of its payload
          subst heq
          obtain rfl : c = c' := Option.some.inj (hcall.symm.trans hc'.1)
          obtain ⟨hdata, hsha, -⟩ := hinv.entered t' c hcall
          have hheld := hinv.held t' c hholds
          rw [hdigest, hkept, h.closing t' c hcall hnext, List.take_length] at hheld
          rw [Option.some.inj hheld]
          exact .inr ⟨hdata, hsha.symm.trans hdigest⟩
        · exact .inl ⟨t', c', hc'.leave heq, hdigest⟩
      · exact .inr hwhole

lemma run_whole {captured : Set (List UInt8)} {events : List (StoreEvent τ)}
    (hcaptured : capturedBy events ⊆ captured)
    (hwrites : ∀ t result errno, .write t result errno ∈ events → 0 < result)
    (hrun : events.foldlM (step casDir sha256) empty = some s) : Whole sha256 captured s := by
  have hkept := Runs.induct (P := fun s => Inv casDir sha256 captured s ∧ Whole sha256 captured s)
    (fun _ events => capturedBy events ⊆ captured ∧
      ∀ t result errno, .write t result errno ∈ events → 0 < result)
    (fun s e events m h hguard hm => ?_) ⟨inv_empty, nofun, nofun⟩ ⟨hcaptured, hwrites⟩ hrun
  · exact hkept.2
  · obtain ⟨hsub, hpos⟩ := hguard
    refine ⟨⟨h.1.step (fun t data he => hsub ⟨t, he ▸ List.mem_cons_self⟩) hm,
      h.2.step h.1 (fun t result errno he => hpos t result errno (he ▸ List.mem_cons_self)) hm⟩,
      fun data ⟨t, ht⟩ => hsub ⟨t, List.mem_cons_of_mem e ht⟩,
      fun t result errno hwrite => hpos t result errno (List.mem_cons_of_mem e hwrite)⟩

/-! ### A write that fails -/

/-- An object that no thread writes to. -/
structure BrokenOff (name : String) (bytes : List UInt8) (s : PayloadStore τ) : Prop where
  object : s.objects name = some bytes
  left : ∀ t c, s.calls t = some c → c.digest = name → c.next ≠ .write

/-- **It stays**: nobody creates it again, so nobody writes the rest. -/
lemma BrokenOff.step {name : String} {bytes : List UInt8} (h : BrokenOff name bytes s)
    (hstep : s.step casDir sha256 e = some s') : BrokenOff name bytes s' := by
  have hleave : ∀ t c, BrokenOff name bytes (s.leave t c) := fun t c =>
    ⟨h.object, fun t' c' hc' => h.left t' c' (calls_of_leave hc').2⟩
  have hcall : ∀ (m : PayloadStore τ) t c, m.calls = s.calls → m.objects name = some bytes →
      (c.digest = name → c.next ≠ .write) → BrokenOff name bytes (m.setCall t c) := by
    refine fun m t c hcalls hobject hnext => ⟨hobject, fun t' c' hc' => ?_⟩
    rcases calls_of_setCall hc' with ⟨-, rfl⟩ | ⟨-, hold⟩
    · exact hnext
    · exact h.left t' c' (hcalls ▸ hold)
  have hother : ∀ (c : Storing) bytes', c.digest ≠ name →
      (s.setObject c.digest bytes').objects name = some bytes := fun c bytes' hne =>
    objects_setObject.trans ((if_neg hne.symm).trans h.object)
  cases taken_of_step hstep with
  | passed _ _ => exact hleave _ _
  | entered _ _ => exact hcall s _ _ rfl h.object fun _ => nofun
  | refused _ _ _ _ => exact hleave _ _
  | @created t c _ _ _ _ hnew =>
      have hne : c.digest ≠ name := fun heq =>
        Option.some_ne_none _ (h.object.symm.trans (heq ▸ hnew))
      exact hcall _ t _ rfl (hother c _ hne) fun heq => absurd heq hne
  | gaveUp _ _ _ => exact hcall s _ _ rfl h.object fun _ => nofun
  | @wrote t c _ _ hc hnext _ _ =>
      have hne : c.digest ≠ name := fun heq => h.left t c hc heq hnext
      exact hcall _ t _ rfl (hother c _ hne) fun heq => absurd heq hne
  | closed _ _ => exact hleave _ _

/-- A write that fails breaks an object off. -/
lemma brokenOff_of_write {captured : Set (List UInt8)} {result errno : ℤ}
    (h : Inv casDir sha256 captured s) (hresult : result ≤ 0)
    (hstep : s.step casDir sha256 (.write t result errno) = some s') :
    ∃ data ∈ captured, ∃ written < data.length,
      BrokenOff (sha256 data) (data.take written) s' := by
  cases taken_of_step hstep with
  | wrote _ _ hpos _ => exact absurd hpos (not_lt.mpr hresult)
  | @gaveUp _ c _ _ hcall hnext _ =>
      have hholds : Holds s t c := ⟨hcall, hnext ▸ StoreCall.noConfusion⟩
      obtain ⟨hdata, hdigest, -⟩ := h.entered t c hcall
      refine ⟨c.data, hdata, c.written, (h.bounded t c hcall).2 hnext, ?_, ?_⟩
      · exact hdigest ▸ h.held t c hholds
      · intro t' c' hc' heq hwrite
        rcases calls_of_setCall hc' with ⟨-, rfl⟩ | ⟨ht, hold⟩
        · cases hwrite
        · have hholds' : Holds s t' c' := ⟨hold, hwrite ▸ StoreCall.noConfusion⟩
          exact ht (h.alone t' c' t c hholds' hholds (heq.trans hdigest.symm))

/-- Nothing that returned is forgotten. -/
lemma returned_subset_of_step (hstep : s.step casDir sha256 e = some s') :
    s.returned ⊆ s'.returned := by
  cases taken_of_step hstep with
  | passed _ _ => exact List.subset_cons_self _ _
  | entered _ _ => exact List.Subset.refl _
  | refused _ _ _ _ => exact List.subset_cons_self _ _
  | created _ _ _ => exact List.Subset.refl _
  | gaveUp _ _ _ => exact List.Subset.refl _
  | wrote _ _ _ _ => exact List.Subset.refl _
  | closed _ _ => exact List.subset_cons_self _ _

variable {events : List (StoreEvent τ)}

/-- A payload without a path is passed over, and its call has no failure. -/
lemma entering_mem_returned {data : List UInt8} (hdata : data ∈ capturedBy events)
    (hpath : storePath casDir (sha256 data) = none)
    (hrun : events.foldlM (step casDir sha256) empty = some s) :
    entering sha256 data ∈ s.returned := by
  obtain ⟨t, ht⟩ := hdata
  obtain ⟨_, m, m', after, -, -, hstep, hafter⟩ := Runs.exists_step_of_mem ht hrun
  have hpassed : entering sha256 data ∈ m'.returned := by
    cases taken_of_step hstep with
    | passed _ _ => exact List.mem_cons_self
    | entered _ hfits => exact absurd hpath hfits
  exact Runs.invariant (P := fun s => entering sha256 data ∈ s.returned)
    (fun _ _ _ hmem hm => returned_subset_of_step hm hmem) hpassed hafter

/-- After a write that failed some object is no whole payload. -/
lemma brokenOff_of_run {t : τ} {result errno : ℤ} (hwrite : .write t result errno ∈ events)
    (hresult : result ≤ 0) (hrun : events.foldlM (step casDir sha256) empty = some s) :
    ∃ data ∈ capturedBy events, ∃ written < data.length,
      s.objects (sha256 data) = some (data.take written) := by
  obtain ⟨before, m, m', after, hevents, hbefore, hstep, hafter⟩ :=
    Runs.exists_step_of_mem hwrite hrun
  have hsub : capturedBy before ⊆ capturedBy events := by
    rintro data ⟨t, ht⟩
    exact ⟨t, hevents ▸ List.mem_append_left _ ht⟩
  obtain ⟨data, hdata, written, hwritten, hbroken⟩ :=
    brokenOff_of_write (run_inv hsub hbefore) hresult hstep
  have hstays := Runs.invariant (P := BrokenOff (sha256 data) (data.take written))
    (fun _ _ _ h hm => h.step hm) hbroken hafter
  exact ⟨data, hdata, written, hwritten, hstays.object⟩

/-! ### When the store is sound -/

/-- The text that `sha256_hex` leaves. -/
def hexDigest (bytes : List UInt8) : String :=
  String.ofList ((sha256Hex (fun _ => .replicate 64 0) (.replicate 128 0) (bytes.getD · 0)
    bytes.length).take digestLength)

lemma hexDigest_eq {bytes : List UInt8} {text : String}
    (h : (sha256Hex (fun _ => .replicate 64 0) (.replicate 128 0) (bytes.getD · 0)
      bytes.length).take digestLength = text.toList) : hexDigest bytes = text := by
  rw [hexDigest, h, String.ofList_toList]

lemma hexDigest_nil : hexDigest [] =
    "e3b0c44298fc1c149afbf4c8996fb92427ae41e4649b934ca495991b7852b855" :=
  hexDigest_eq (by decide +kernel)

lemma hexDigest_a : hexDigest [97] =
    "ca978112ca1bbdcafac231b39a23dc4da786eff8147c4e72b9807785afee48bb" :=
  hexDigest_eq (by decide +kernel)

lemma hexDigest_ab : hexDigest [97, 98] =
    "fb8e20fc2e4c3f248c60c39bd652f3c1347298bb977b8b4d5903b85055620603" :=
  hexDigest_eq (by decide +kernel)

lemma hexDigest_c : hexDigest [99] =
    "2e7d2c03a9507ae265ecf5b5356885a53393a2029d241394997265a1a25aefc6" :=
  hexDigest_eq (by decide +kernel)

lemma hexDigest_nil_ne : hexDigest [] ≠ hexDigest [97] := by
  rw [hexDigest_nil, hexDigest_a]
  decide

lemma storePath_a : storePath "/t/cas" (hexDigest [97]) ≠ none := by
  rw [hexDigest_a]
  decide

/-- Two threads store a payload each. One of them writes a byte at a time, and the other
stores its own in between. -/
def twoPayloads : List (StoreEvent Bool) :=
  [.capture false [97, 98], .openat false 5 0, .capture true [99], .write false 1 0,
    .openat true 6 0, .write true 1 0, .write false 1 0, .close true 0 0, .close false 0 0]

/-- A thread creates an object when the disk is full, and gives up with
`ENOSPC`. Then there is room again, and another thread stores the same. -/
def diskFull : List (StoreEvent Bool) :=
  [.capture false [97], .openat false 5 0, .write false (-1) 28, .close false 0 0,
    .capture true [97], .openat true (-1) eexist]

lemma twoPayloads_run (hpath : storePath casDir (sha256 [97, 98]) ≠ none)
    (hpath' : storePath casDir (sha256 [99]) ≠ none) (hne : sha256 [97, 98] ≠ sha256 [99]) :
    ∃ s, twoPayloads.foldlM (step casDir sha256) empty = some s ∧ s.calls false = none ∧
      s.calls true = none := by
  simp [twoPayloads, step, capture, hpath, hpath', hne, hne.symm, empty, setCall, setObject, leave,
    entering, openat, write, Storing.met, Storing.loopHead, splice, Option.filter]

lemma diskFull_run (hpath : storePath casDir (sha256 [97]) ≠ none) : ∃ s,
    diskFull.foldlM (step casDir sha256) empty = some s ∧
      (s.calls false = none ∧ s.calls true = none) ∧ s.objects (sha256 [97]) = some [] ∧
        ∃ c ∈ s.returned, c.data = [97] ∧ c.failures = [eexist] := by
  simp [diskFull, step, capture, hpath, empty, setCall, setObject, leave, entering, openat, write,
    Storing.met, Storing.loopHead, eexist, Option.filter]

/-- **When the store is sound**, once no call is in progress: there is a store,
with room for the paths of its objects, and no write to it failed. -/
theorem sound_iff (hrun : events.foldlM (step casDir sha256) empty = some s)
    (hidle : ∀ t, s.calls t = none)
    (hinj : Set.InjOn sha256 {bytes | ∃ data ∈ capturedBy events, bytes <+: data}) :
    Sound sha256 s ↔
      (∀ data ∈ capturedBy events, storePath casDir (sha256 data) ≠ none) ∧
        ∀ t result errno, .write t result errno ∈ events → 0 < result := by
  have hinv := run_inv Set.Subset.rfl hrun
  constructor
  · intro hsound
    refine ⟨fun data hdata hpath => ?_, fun t result errno hwrite => ?_⟩
    · have hobject := hsound.present _ (entering_mem_returned hdata hpath hrun) nofun
      exact hinv.fits (sha256 data) (hobject ▸ Option.some_ne_none _) hpath
    · by_contra hresult
      obtain ⟨data, hdata, written, hwritten, hobject⟩ :=
        brokenOff_of_run hwrite (not_lt.mp hresult) hrun
      have hwhole : data.take written = data :=
        hinj ⟨data, hdata, List.take_prefix _ _⟩ ⟨data, hdata, List.prefix_refl _⟩
          (hsound.named _ _ hobject)
      have hlength := congrArg List.length hwhole
      rw [List.length_take] at hlength
      omega
  · rintro ⟨hfits, hwrites⟩
    have hwhole : ∀ name bytes, s.objects name = some bytes →
        bytes ∈ capturedBy events ∧ sha256 bytes = name := fun name bytes hbytes =>
      ((run_whole Set.Subset.rfl hwrites hrun).whole name bytes hbytes).resolve_left
        fun ⟨t, c, hc, _⟩ => Option.some_ne_none _ (hc.1.symm.trans (hidle t))
    refine ⟨fun name bytes hbytes => (hwhole name bytes hbytes).2, fun c hc hclean => ?_⟩
    obtain ⟨hdata, hstored⟩ := hinv.stored c hc
    obtain ⟨bytes, hbytes⟩ := Option.ne_none_iff_exists'.mp (hstored (hfits _ hdata) hclean)
    obtain ⟨hcaptured, hsha⟩ := hwhole _ _ hbytes
    rw [hbytes, hinj ⟨bytes, hcaptured, List.prefix_refl _⟩ ⟨c.data, hdata, List.prefix_refl _⟩
      hsha]

/-- The store of the two payloads is sound. -/
theorem twoPayloads_sound : ∃ s,
    twoPayloads.foldlM (step "/t/cas" hexDigest) empty = some s ∧ Sound hexDigest s := by
  have hdistinct : ([[], [97], [97, 98], [99]].map hexDigest).Nodup := by
    simp only [List.map_cons, List.map_nil, hexDigest_nil, hexDigest_a, hexDigest_ab, hexDigest_c]
    decide
  have hinjective := List.inj_on_of_nodup_map hdistinct
  have hpaths : ∀ data ∈ [[97, 98], [99]], storePath "/t/cas" (hexDigest data) ≠ none := by
    simp only [List.forall_mem_cons, hexDigest_ab, hexDigest_c]
    decide
  have hcaptured : ∀ data ∈ capturedBy twoPayloads, data ∈ [[97, 98], [99]] := by
    rintro data ⟨t, ht⟩
    have hboth : t = false ∧ data = [97, 98] ∨ t = true ∧ data = [99] := by
      simpa [twoPayloads] using ht
    rcases hboth with ⟨-, rfl⟩ | ⟨-, rfl⟩ <;> decide
  have hbytes : ∀ data ∈ capturedBy twoPayloads, ∀ bytes, bytes <+: data →
      bytes ∈ [[], [97], [97, 98], [99]] := by
    intro data hdata bytes hstart
    have hinits : ∀ data ∈ ([[97, 98], [99]] : List (List UInt8)), ∀ bytes ∈ data.inits,
        bytes ∈ [[], [97], [97, 98], [99]] := by
      decide
    exact hinits data (hcaptured data hdata) bytes (List.mem_inits _ _ |>.mpr hstart)
  have hinj : Set.InjOn hexDigest {bytes | ∃ data ∈ capturedBy twoPayloads, bytes <+: data} := by
    rintro bytes ⟨data, hdata, hstart⟩ bytes' ⟨data', hdata', hstart'⟩ heq
    exact hinjective (hbytes data hdata bytes hstart) (hbytes data' hdata' bytes' hstart') heq
  have hne : hexDigest [97, 98] ≠ hexDigest [99] := by
    rw [hexDigest_ab, hexDigest_c]
    decide
  obtain ⟨s, hs, hcalls⟩ := twoPayloads_run (hpaths _ (by decide)) (hpaths _ (by decide)) hne
  refine ⟨s, hs, (sound_iff hs (Bool.forall_bool.mpr hcalls) hinj).mpr
    ⟨fun data hdata => hpaths data (hcaptured data hdata), fun t result errno hwrite => ?_⟩⟩
  have hone : result = 1 := by
    simp only [twoPayloads, List.mem_cons, StoreEvent.write.injEq, reduceCtorEq, List.not_mem_nil,
      or_false, false_or] at hwrite
    rcases hwrite with ⟨-, h, -⟩ | ⟨-, h, -⟩ | ⟨-, h, -⟩ <;> exact h
  rw [hone]
  decide

/-- **The object stays broken off**: it is empty, and the call of the second
thread met nothing but `EEXIST`. -/
theorem diskFull_truncates : ∃ s, diskFull.foldlM (step "/t/cas" hexDigest) empty = some s ∧
    (∀ t, s.calls t = none) ∧
    (s.objects (hexDigest [97]) = some [] ∧ hexDigest [] ≠ hexDigest [97]) ∧
    ∃ c ∈ s.returned, c.data = [97] ∧ c.failures = [eexist] := by
  obtain ⟨s, hs, hcalls, hrest⟩ := diskFull_run storePath_a
  exact ⟨s, hs, Bool.forall_bool.mpr hcalls, ⟨hrest.1, hexDigest_nil_ne⟩, hrest.2⟩

end PayloadStore

end CrashFuzz.Shim
