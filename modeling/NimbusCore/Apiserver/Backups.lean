import NimbusCore.Apiserver.Objects
import NimbusCore.Store.Reencrypt

/-!
# Apiserver — backup and restore

`internal/apiserver/backup_service.go`, over the two implementations of `store.Store`: the in-memory
store, whose calls never fail, and the replicated one, any of whose writes may, carried out or not.
`CreateBackup` lists the plaintext; `RestoreBackup` puts the entries one after the other, and stops
at the first that fails.  It deletes nothing, and takes nothing back.

* `runs_restoreLoop`: some of the entries have been put, and all of them if it succeeds.
* `restore_correct_iff`: every restore brings back what was backed up, or leaves what there was, if
  and only if there is no key that the backup has not, and, over the replicated store, every entry
  is there already.
* `restore_incorrect`: a key that is new stays, and a restore that fails leaves a mixture.
-/

namespace NimbusCore.Apiserver

open Store List

/-! ### The stores -/

/-- A `store.Store`. -/
inductive AnyStore where
  | mem (s : MemStore)
  | raft (s : RaftStore)

/-- It is the replicated one. -/
def AnyStore.IsRaft : AnyStore → Prop
  | .mem _ => False
  | .raft _ => True

/-- The plaintext contents. -/
def AnyStore.Reads (A : Aead) : AnyStore → Data → Prop
  | .mem s, m => s.data = m
  | .raft s, m => Store.Reads A s m

/-- What the store answers to the backup service.  Each of the two loops over a map has an order; a
write of the replicated store meets what it meets, and may be reported as failed though raft has
committed it. -/
def serveStore (A : Aead) (J : Json) : Handler ServerCmd ServerCmd.Answer AnyStore
  | .listStore pfx, .mem s, x, s' => s' = .mem s ∧ ∃ order,
      Finmap.IsOrder order (s.list (goString pfx)) ∧ x = .ok ((s.list (goString pfx)).range order)
  | .listStore pfx, .raft s, x, s' => s' = .raft s ∧ ∃ listOrder,
      Finmap.IsOrder listOrder (s.fsm.list (goString pfx)) ∧
      ((∃ all order, s.list A (goString pfx) listOrder = .ok all ∧ Finmap.IsOrder order all ∧
        x = .ok (all.range order)) ∨
      ∃ err, s.list A (goString pfx) listOrder = .error err ∧ x = .error err)
  | .putStore key value, .mem s, x, s' => s' = .mem (s.put (goString key) value) ∧ x = .ok ()
  | .putStore key value, .raft s, x, s' => ∃ draw,
      (∃ t, s.put A J (goString key) value draw = .ok t ∧ s' = .raft t ∧
        (x = .ok () ∨ x = .error .raft)) ∨
      ∃ err, s.put A J (goString key) value draw = .error err ∧ s' = .raft s ∧ x = .error err
  | .clock _, s, _, s' | .outside _, s, _, s' => s' = s

section

variable {A : Aead} {J : Json} {s s' : AnyStore} {m m' : Data} {key : String} {value : Bytes}

theorem AnyStore.Reads.unique (h : s.Reads A m) (h' : s.Reads A m') : m = m' := by
  cases s with
  | mem s => exact h.symm.trans h'
  | raft s => exact Store.Reads.unique h h'

/-- **A listing of everything**, if it succeeds, is of the contents. -/
theorem all_of_listStore (h : s.Reads A m) {all : List (GoString × Bytes)}
    (hs : serveStore A J (.listStore "") s (.ok all) s') :
    ∃ order, Finmap.IsOrder order m ∧ all = m.range order := by
  cases s with
  | mem s =>
    obtain ⟨-, order, ho, hx⟩ := hs
    cases h
    rw [show goString "" = [] from rfl, MemStore.list, Data.listing_nil] at ho hx
    exact ⟨order, ho, Except.ok.inj hx⟩
  | raft s =>
    obtain ⟨-, listOrder, hlo, ⟨found, order, hl, ho, hx⟩ | ⟨err, -, hx⟩⟩ := hs
    · have hlist := Store.Reads.list h _ hlo
      rw [hl, show goString "" = [] from rfl, MemStore.list, Data.listing_nil] at hlist
      cases hlist
      exact ⟨order, ho, Except.ok.inj hx⟩
    · cases hx

/-- **A write that succeeds** acts on the contents. -/
theorem reads_of_putStore (hA : A.Lawful) (hJ : J.Lawful) (h : s.Reads A m)
    (hs : serveStore A J (.putStore key value) s (.ok ()) s') :
    s'.Reads A (m.insert (goString key) value) ∧ (s'.IsRaft ↔ s.IsRaft) := by
  cases s with
  | mem s =>
    obtain ⟨rfl, -⟩ := hs
    cases h
    exact ⟨rfl, Iff.rfl⟩
  | raft s =>
    obtain ⟨draw, ⟨t, hp, rfl, -⟩ | ⟨err, -, -, hx⟩⟩ := hs
    · exact ⟨Store.Reads.put hA hJ h (validUtf8_goString key) hp, Iff.rfl⟩
    · cases hx

/-- A write that is carried out may be reported as failed. -/
theorem putStore_lost (hraft : s.IsRaft) (hs : serveStore A J (.putStore key value) s (.ok ()) s') :
    serveStore A J (.putStore key value) s (.error .raft) s' := by
  cases s with
  | mem s => cases hraft
  | raft s =>
    obtain ⟨draw, ⟨t, hp, rfl, -⟩ | ⟨err, -, -, hx⟩⟩ := hs
    · exact ⟨draw, .inl ⟨t, hp, rfl, .inr rfl⟩⟩
    · cases hx

/-- **A write that fails** is one of the replicated store, and is carried out or changes nothing. -/
theorem of_putStore_error {err : StoreError}
    (hs : serveStore A J (.putStore key value) s (.error err) s') :
    s.IsRaft ∧ (s' = s ∨ serveStore A J (.putStore key value) s (.ok ()) s') := by
  cases s with
  | mem s => obtain ⟨-, hx⟩ := hs; cases hx
  | raft s =>
    obtain ⟨draw, ⟨t, hp, rfl, -⟩ | ⟨err, -, rfl, -⟩⟩ := hs
    · exact ⟨trivial, .inr ⟨draw, .inl ⟨t, hp, rfl, .inl rfl⟩⟩⟩
    · exact ⟨trivial, .inl rfl⟩

/-- Any write may succeed. -/
theorem exists_putStore (hJ : J.Lawful) (s : AnyStore) (key : String) (value : Bytes) :
    ∃ s', serveStore A J (.putStore key value) s (.ok ()) s' := by
  cases s with
  | mem s => exact ⟨_, rfl, rfl⟩
  | raft s =>
    obtain ⟨c, -, hp⟩ := RaftStore.exists_put (A := A) hJ s (validUtf8_goString key) value
      (d := goodDraw) ⟨rfl, rfl⟩
    exact ⟨_, goodDraw, .inl ⟨_, hp, rfl, .inl rfl⟩⟩

end

/-! ### Restoring -/

/-- An entry, as the store has it. -/
def BackupEntry.pair (e : BackupEntry) : GoString × Bytes := (goString e.key, e.value)

section

variable {A : Aead} {J : Json} {errorText : StoreError → String} {s s' : AnyStore} {m : Data}
  {entries : List BackupEntry}

/-- **The loop, wherever it stops.**  The entries of `done` have been put; if it succeeds, that is
all of them. -/
theorem runs_restoreLoop (hA : A.Lawful) (hJ : J.Lawful) {r : Except Status Unit}
    (h : (restoreLoop errorText entries).Runs (serveStore A J) s (.ok r) s') (hs : s.Reads A m) :
    ∃ done rest, entries = done ++ rest ∧ s'.Reads A (m.insertAll (done.map BackupEntry.pair)) ∧
      ((r = .ok () ∧ rest = []) ∨ (∃ err, r = .error err) ∧ s.IsRaft) := by
  induction entries generalizing s m with
  | nil =>
    obtain ⟨hr, rfl⟩ := h
    exact ⟨[], [], rfl, hs, .inl ⟨Except.ok.inj hr, rfl⟩⟩
  | cons e entries ih =>
    obtain ⟨x, s₁, hc, h⟩ := h
    cases x with
    | error err =>
      obtain ⟨hr, rfl⟩ := h
      obtain ⟨hraft, rfl | hc⟩ := of_putStore_error hc
      · exact ⟨[], e :: entries, rfl, hs, .inr ⟨⟨_, Except.ok.inj hr⟩, hraft⟩⟩
      · exact ⟨[e], entries, rfl, (reads_of_putStore hA hJ hs hc).1,
          .inr ⟨⟨_, Except.ok.inj hr⟩, hraft⟩⟩
    | ok _ =>
      obtain ⟨hs₁, hraft⟩ := reads_of_putStore hA hJ hs hc
      obtain ⟨done, rest, rfl, hs', hr⟩ := ih h hs₁
      exact ⟨e :: done, rest, rfl, hs', hr.imp_right fun h => ⟨h.1, hraft.mp h.2⟩⟩

/-- All entries may be put. -/
theorem exists_restoreLoop (hJ : J.Lawful) (errorText : StoreError → String)
    (entries : List BackupEntry) (s : AnyStore) :
    ∃ s', (restoreLoop errorText entries).Runs (serveStore A J) s (.ok (.ok ())) s' := by
  induction entries generalizing s with
  | nil => exact ⟨s, rfl, rfl⟩
  | cons e entries ih =>
    obtain ⟨s₁, hc⟩ := exists_putStore (A := A) hJ s e.key e.value
    obtain ⟨s', h⟩ := ih s₁
    exact ⟨s', .ok (), s₁, hc, h⟩

/-- All entries may be put, and the last of them be reported as failed. -/
theorem exists_restoreLoop_error (hA : A.Lawful) (hJ : J.Lawful) (hraft : s.IsRaft)
    (hs : s.Reads A m) (errorText : StoreError → String) (done : List BackupEntry)
    (e : BackupEntry) :
    ∃ err s', (restoreLoop errorText (done ++ [e])).Runs (serveStore A J) s (.ok (.error err)) s' ∧
      s'.Reads A (m.insertAll ((done ++ [e]).map BackupEntry.pair)) := by
  induction done generalizing s m with
  | nil =>
    obtain ⟨s₁, hc⟩ := exists_putStore (A := A) hJ s e.key e.value
    exact ⟨_, s₁, ⟨.error .raft, s₁, putStore_lost hraft hc, rfl, rfl⟩,
      (reads_of_putStore hA hJ hs hc).1⟩
  | cons e' done ih =>
    obtain ⟨s₁, hc⟩ := exists_putStore (A := A) hJ s e'.key e'.value
    obtain ⟨hs₁, hraft₁⟩ := reads_of_putStore hA hJ hs hc
    obtain ⟨err, s', h, hs'⟩ := ih (hraft₁.mpr hraft) hs₁
    exact ⟨err, s', ⟨.ok (), s₁, hc, h⟩, hs'⟩

/-- **`RestoreBackup`** is the loop, and a count. -/
theorem runs_restoreBackup {r : Except Status Int32} :
    (restoreBackup errorText entries).Runs (serveStore A J) s (.ok r) s' ↔
      ∃ r₀, (restoreLoop errorText entries).Runs (serveStore A J) s (.ok r₀) s' ∧
        r = r₀.map fun _ => Int32.ofNat entries.length := by
  rw [restoreBackup, Prog.runs_bind]
  constructor
  · rintro (⟨r₀, s₁, h, h'⟩ | ⟨e, h, -⟩)
    · cases r₀ with
      | error err | ok u => obtain ⟨hr, rfl⟩ := h'; cases hr; exact ⟨_, h, rfl⟩
    · cases h
  · rintro ⟨r₀, h, rfl⟩
    refine .inl ⟨r₀, s', h, ?_⟩
    cases r₀ <;> exact ⟨rfl, rfl⟩

/-- What a restore has to do: bring back `S`, or, if it fails, leave `S'`. -/
def Restored (A : Aead) (S S' : Data) (s : AnyStore) : Except Status Int32 → Prop
  | .ok _ => s.Reads A S
  | .error _ => s.Reads A S'

/-- The entries of a backup are those of the map, in some order. -/
theorem entries_of_createBackup {s₀ s₀' : AnyStore} {S : Data} (h₀ : s₀.Reads A S)
    (hbackup : (createBackup errorText).Runs (serveStore A J) s₀
      (.ok (.ok (entries.map BackupEntry.pair))) s₀') :
    ∃ order, Finmap.IsOrder order S ∧ entries.map BackupEntry.pair = S.range order := by
  obtain ⟨x, s₁, hc, h⟩ := hbackup
  rcases x with err | all
  · cases h.1
  cases h.1
  exact all_of_listStore h₀ hc

/-- No two of those that have been put are of one key. -/
theorem nodup_of_entries {S : Data} {order : List GoString} (ho : Finmap.IsOrder order S)
    (hentries : entries.map BackupEntry.pair = S.range order) {done rest : List BackupEntry}
    (he : entries = done ++ rest) : ((done.map BackupEntry.pair).map Prod.fst).Nodup := by
  have hn : ((entries.map BackupEntry.pair).map Prod.fst).Nodup := by
    rw [hentries, ho.map_fst_range]
    exact ho.1
  rw [he, map_append, map_append] at hn
  exact hn.of_append_left

/-- **A restore brings back what was backed up, or leaves what there was, exactly if there is
nothing to take back.**  The backup was taken of a store that reads as `S`, in whatever order; it is
restored to one that reads as `S'`, of either kind and with any key.  Every run is correct if and
only if `S'` has no key that `S` has not, and, where a write may fail, has every entry already. -/
theorem restore_correct_iff (hA : A.Lawful) (hJ : J.Lawful) {s₀ s₀' : AnyStore} {S S' : Data}
    (h₀ : s₀.Reads A S) (hs : s.Reads A S')
    (hbackup : (createBackup errorText).Runs (serveStore A J) s₀
      (.ok (.ok (entries.map BackupEntry.pair))) s₀') :
    (∀ r s', (restoreBackup errorText entries).Runs (serveStore A J) s (.ok r) s' →
        Restored A S S' s' r) ↔
      (∀ k ∈ S', k ∈ S) ∧
        (s.IsRaft → ∀ e ∈ entries, S'.lookup (goString e.key) = some e.value) := by
  obtain ⟨order, ho, hentries⟩ := entries_of_createBackup h₀ hbackup
  constructor
  · intro h
    refine ⟨?_, fun hraft => ?_⟩
    · obtain ⟨s', hrun⟩ := exists_restoreLoop (A := A) hJ errorText entries s
      obtain ⟨done, rest, he, hs', ⟨-, rfl⟩ | ⟨⟨err, herr⟩, -⟩⟩ := runs_restoreLoop hA hJ hrun hs
      · have hS := h _ s' (runs_restoreBackup.mpr ⟨_, hrun, rfl⟩)
        rw [append_nil] at he
        rw [← he, hentries] at hs'
        exact (Finmap.insertAll_range_eq_iff ho).mp (hs'.unique hS)
      · cases herr
    · rcases eq_nil_or_concat' entries with hnil | ⟨done, e, he⟩
      · rw [hnil]
        exact fun e he => by cases he
      · obtain ⟨err, s', hrun, hs'⟩ := exists_restoreLoop_error hA hJ hraft hs errorText done e
        rw [← he] at hrun hs'
        have hS := h _ s' (runs_restoreBackup.mpr ⟨_, hrun, rfl⟩)
        have hn := nodup_of_entries ho hentries (append_nil entries).symm
        have hsame := (Finmap.insertAll_eq_self_iff hn).mp (hs'.unique hS)
        exact fun e he => hsame _ (mem_map_of_mem he)
  · rintro ⟨hkeys, hsame⟩ r s' hrun
    obtain ⟨r₀, hloop, rfl⟩ := runs_restoreBackup.mp hrun
    obtain ⟨done, rest, he, hs', ⟨rfl, rfl⟩ | ⟨⟨err, rfl⟩, hraft⟩⟩ :=
      runs_restoreLoop hA hJ hloop hs
    · rw [append_nil] at he
      rw [← he, hentries, (Finmap.insertAll_range_eq_iff ho).mpr hkeys] at hs'
      exact hs'
    · have hput : ∀ p ∈ done.map BackupEntry.pair, S'.lookup p.1 = some p.2 := by
        intro p hp
        obtain ⟨e, hmem, rfl⟩ := mem_map.mp hp
        exact hsame hraft e (he ▸ mem_append_left _ hmem)
      rw [(Finmap.insertAll_eq_self_iff (nodup_of_entries ho hentries he)).mpr hput] at hs'
      exact hs'

end

/-! ### Concrete restores -/

/-- A map of one or two entries. -/
def contentsOf (es : List BackupEntry) : Data := (∅ : Data).insertAll (es.map BackupEntry.pair)

def oneEntry : List BackupEntry := [⟨"a", [1]⟩]

def twoEntries : List BackupEntry := [⟨"a", [1]⟩, ⟨"b", [2]⟩]

/-- A replicated store that holds the one entry. -/
def storedOne : AnyStore := .raft (storeOne 1 (encKeyOf 1) .none)

/-- A backup of a replicated store, under its own key, restored to an empty map and to the store
itself. -/
theorem restore_correct_iff_sample :
    (∀ r s', (restoreBackup (fun _ => "") oneEntry).Runs (serveStore tagAead sampleJson)
        (.mem newMemStore) (.ok r) s' → Restored tagAead (contentsOf oneEntry) ∅ s' r) ∧
    ∀ r s', (restoreBackup (fun _ => "") oneEntry).Runs (serveStore tagAead sampleJson)
        storedOne (.ok r) s' →
      Restored tagAead (contentsOf oneEntry) (contentsOf oneEntry) s' r := by
  have hreads : storedOne.Reads tagAead (contentsOf oneEntry) :=
    holds_storeOne.reads tagAead_lawful
  have hempty : (AnyStore.mem newMemStore).Reads tagAead ∅ := rfl
  have hbackup : (createBackup fun _ => "").Runs (serveStore tagAead sampleJson) storedOne
      (.ok (.ok (oneEntry.map BackupEntry.pair))) storedOne :=
    ⟨.ok (oneEntry.map BackupEntry.pair), _, ⟨rfl, [goString "a"], by decide,
      .inl ⟨contentsOf oneEntry, [goString "a"], rfl, by decide, rfl⟩⟩, rfl, rfl⟩
  constructor
  · refine (restore_correct_iff tagAead_lawful sampleJson_lawful hreads hempty hbackup).mpr
      ⟨fun k hk => ?_, fun h => by cases h⟩
    exact absurd hk Finmap.notMem_empty
  · refine (restore_correct_iff tagAead_lawful sampleJson_lawful hreads hreads hbackup).mpr
      ⟨fun k => id, fun _ e he => ?_⟩
    obtain rfl := mem_singleton.mp he
    decide

/-- **A restore brings back neither.**  A key that was put after the backup is still there after a
restore that succeeded.  A restore that failed at its second entry has put the first. -/
theorem restore_incorrect :
    (∃ s', (createBackup fun _ => "").Runs (serveStore tagAead sampleJson)
        (.mem ⟨contentsOf oneEntry⟩) (.ok (.ok (oneEntry.map BackupEntry.pair)))
        (.mem ⟨contentsOf oneEntry⟩) ∧
      (restoreBackup (fun _ => "") oneEntry).Runs (serveStore tagAead sampleJson)
        (.mem ⟨contentsOf twoEntries⟩) (.ok (.ok 1)) s' ∧
      ¬ s'.Reads tagAead (contentsOf oneEntry)) ∧
    ∃ err s', (createBackup fun _ => "").Runs (serveStore tagAead sampleJson)
        (.mem ⟨contentsOf twoEntries⟩) (.ok (.ok (twoEntries.map BackupEntry.pair)))
        (.mem ⟨contentsOf twoEntries⟩) ∧
      (restoreBackup (fun _ => "") twoEntries).Runs (serveStore tagAead sampleJson)
        (.raft newOne) (.ok (.error err)) s' ∧
      (AnyStore.raft newOne).Reads tagAead ∅ ∧ ¬ s'.Reads tagAead ∅ := by
  refine ⟨⟨_, ?_, ⟨.ok (), _, ⟨rfl, rfl⟩, rfl, rfl⟩, ?_⟩,
    ⟨⟨.internal, "restore key b: ", none⟩, storedOne, ?_, ?_, ?_, ?_⟩⟩
  · exact ⟨.ok (oneEntry.map BackupEntry.pair), _, ⟨rfl, [goString "a"], by decide, rfl⟩, rfl, rfl⟩
  · intro h
    exact absurd (congrArg (Finmap.lookup (goString "b")) h) (by decide)
  · exact ⟨.ok (twoEntries.map BackupEntry.pair), _,
      ⟨rfl, [goString "a", goString "b"], by decide, rfl⟩, rfl, rfl⟩
  · exact ⟨.ok (), _, ⟨goodDraw, .inl ⟨_, rfl, rfl, .inl rfl⟩⟩, .error .raft, _,
      ⟨failedDraw, .inr ⟨.raft, rfl, rfl, rfl⟩⟩, rfl, rfl⟩
  · exact (holds_fresh newOne_opened).reads tagAead_lawful
  · intro h
    exact absurd (h (goString "a")) (by decide)

end NimbusCore.Apiserver
