import NimbusCore.Store.Samples

/-!
# Store — snapshots and log replay

`fsm.Snapshot`, `fsmSnapshot.Persist` and `fsm.Restore`.  A replica that starts from a snapshot and
replays the rest of the log must end where a replica that replays the whole log ends
(`replay_snapshot`).  JSON keeps a map only if its keys are valid UTF-8; they are, because every
key of a machine came out of the JSON decoder (`KeysValid`, kept by every log entry, decodable or
not).
-/

namespace NimbusCore.Store

variable {J : Json}

/-- `fsmSnapshot`. -/
structure FsmSnapshot where
  data : Data

/-- `fsm.Snapshot`. -/
def Fsm.snapshot (f : Fsm) : FsmSnapshot := ⟨f.data⟩

/-- `fsmSnapshot.Persist`: what is written to the sink. -/
def FsmSnapshot.persist (J : Json) (s : FsmSnapshot) : Bytes := J.encodeData s.data

/-- `fsm.Restore`: the contents are replaced, or nothing changes. -/
def Fsm.restore (J : Json) (_f : Fsm) (rc : Bytes) : Except StoreError Fsm :=
  match J.decodeData rc with
  | none => .error .decode
  | some data => .ok ⟨data⟩

/-- Every entry of a log, applied in turn. -/
def Fsm.replay (J : Json) (f : Fsm) (log : List Bytes) : Fsm :=
  log.foldl (fun f entry => (f.apply J entry).1) f

/-- Every key of the machine is valid UTF-8. -/
def KeysValid (f : Fsm) : Prop := ∀ k ∈ f.data, ValidUtf8 k

theorem keysValid_fresh : KeysValid Fsm.fresh := fun _ hk => absurd hk Finmap.notMem_empty

theorem KeysValid.dispatch {f : Fsm} (h : KeysValid f) {cmd : Command} (hk : ValidUtf8 cmd.key) :
    KeysValid (f.dispatch cmd) := by
  simp only [Fsm.dispatch]
  split
  · intro k hm
    rcases Finmap.mem_insert.mp hm with rfl | hm
    · exact hk
    · exact h k hm
  · split
    · exact fun k hm => h k (Finmap.mem_erase.mp hm).2
    · exact h

/-- **One log entry keeps the keys valid**, whatever its bytes are. -/
theorem KeysValid.apply (hJ : J.Lawful) {f : Fsm} (h : KeysValid f) (entry : Bytes) :
    KeysValid (f.apply J entry).1 := by
  simp only [Fsm.apply]
  cases hd : J.decodeCommand entry with
  | none => exact h
  | some cmd => exact h.dispatch (hJ.decode_valid entry cmd hd)

theorem KeysValid.replay (hJ : J.Lawful) :
    ∀ (log : List Bytes) {f : Fsm}, KeysValid f → KeysValid (f.replay J log)
  | [], _, h => h
  | entry :: log, _, h => KeysValid.replay hJ log (h.apply hJ entry)

theorem Fsm.replay_append (f : Fsm) (log log' : List Bytes) :
    f.replay J (log ++ log') = (f.replay J log).replay J log' :=
  List.foldl_append

/-- A snapshot of a machine with valid keys restores to the machine, over any other. -/
theorem restore_persist (hJ : J.Lawful) {f : Fsm} (h : KeysValid f) (other : Fsm) :
    other.restore J (f.snapshot.persist J) = .ok f := by
  rw [Fsm.restore, FsmSnapshot.persist, Fsm.snapshot, hJ.data_round_trip f.data h]

/-- **Snapshots and log replay agree.**  Replaying a log is replaying any prefix of it, taking a
snapshot, restoring that over any machine, and replaying the rest there. -/
theorem replay_snapshot (hJ : J.Lawful) (log rest : List Bytes) (other : Fsm) :
    ∃ f, other.restore J ((Fsm.fresh.replay J log).snapshot.persist J) = .ok f ∧
      f.replay J rest = Fsm.fresh.replay J (log ++ rest) :=
  ⟨_, restore_persist hJ (keysValid_fresh.replay hJ log) other, (Fsm.replay_append ..).symm⟩

/-- A put, an entry that is not JSON, a snapshot over a machine with other contents, and the rest
of the log. -/
theorem replay_snapshot_sample :
    ∃ f, (Fsm.mk (Finmap.singleton (goString "z") [9])).restore sampleJson
        ((Fsm.fresh.replay sampleJson
          [goString "\x7b\"op\":\"put\",\"key\":\"a\",\"value\":\"AQ==\"\x7d",
            [255]]).snapshot.persist
          sampleJson) = .ok f ∧
      f.replay sampleJson [goString "\x7b\"op\":\"put\",\"key\":\"b\"\x7d"] =
        Fsm.fresh.replay sampleJson
          ([goString "\x7b\"op\":\"put\",\"key\":\"a\",\"value\":\"AQ==\"\x7d", [255]] ++
            [goString "\x7b\"op\":\"put\",\"key\":\"b\"\x7d"]) :=
  replay_snapshot sampleJson_lawful ..

end NimbusCore.Store
