import DebugSymbols.Proofs.Import.Echoes
import DebugSymbols.Proofs.Resumption

/-!
An import can be repeated.  The second run leaves the database as it was, but for the blob that the
cache is kept in, and the cache says the same, apart from what only a second run finds out
(`importSections_again`): the first run did all there was to do, and a session that is resumed goes
on like one that was never left.
-/

namespace DebugSymbols

open Importer

namespace Importer

variable {i : Importer} {s t : Session}

/-! ## Whole imports -/

/-- No command touches the blobs of the database. -/
theorem blobs_performAll (i : Importer) (commands : List Command) (s : Session) :
    (i.performAll commands s).host.database.blobs = s.host.database.blobs := by
  have h := performAll_extend (i := i) ⟨0, #[], s.host.database.blobs⟩ commands s
  rw [Past.extend_self] at h
  rw [h]
  rfl

theorem host_resumeSession {h : Host} (hresume : i.resumeSession h = .ok s) : s.host = h := by
  obtain ⟨cache, rfl⟩ := resumeSession_eq_ok hresume
  rfl

/-- What a session echoes when it is left and resumed, it echoes when it goes on. -/
theorem Echoes.resumed {commands : List Command} (he : i.Echoes s (i.performAll commands s))
    (hextend : ∀ p : Past, (p.after s).extend t = p.extend s) :
    (i.performAll commands t).host = t.host ∧
      i.Revises s.cache (i.performAll commands t).cache := by
  let p : Past := ⟨0, #[], s.host.database.blobs⟩
  have hgoes : (p.after s).extend (i.performAll commands t) = i.performAll commands s := by
    rw [← performAll_extend, hextend, Past.extend_self]
  have hhost : (i.performAll commands t).host.withBlobs s.host.database.blobs = s.host := by
    rw [← he.host, ← hgoes]
    rfl
  have hhost' : t.host.withBlobs s.host.database.blobs = s.host :=
    congrArg Session.host ((hextend p).trans (Past.extend_self s))
  refine ⟨Host.eq_of_withBlobs (hhost.trans hhost'.symm) (blobs_performAll i commands t), ?_⟩
  have hcache : (i.performAll commands t).cache = (i.performAll commands s).cache := by
    rw [← hgoes]
    rfl
  rw [hcache]
  exact he.cache

end Importer

/-- An import that is repeated leaves everything but its own blob as it was.  That blob is kept as
well if everything is walked over that is made from another type, and no entry repeats a name. -/
theorem importSections_again {sections : Sections} {config : Config}
    (hsize : sections.entries.size < UInt64.size) (hpersist : config.persistCache = true)
    (pointerSize : UInt64) (calls : List Call)
    (hnew : (Host.built pointerSize calls).loadBlob? config.cacheKey = none) {h : Host}
    {s : Session}
    (himport : importSections sections config (Host.built pointerSize calls) = .ok (h, s))
    (htypes : h.database.types.size < UInt32.size) :
    ∃ info s', DebugInfo.decode sections = .ok info ∧
      importSections sections config h =
        .ok (h.storeBlob config.cacheKey s'.cache.toBytes, s') ∧
      h.loadBlob? config.cacheKey = some s.cache.toBytes ∧
      (Importer.mk info config).Revises s.cache s'.cache ∧
      ((∀ d, info.Holds d → d.tag.isModifier = true → info.Walks d) →
        (∀ d, info.Holds d → ¬ d.RepeatsName) →
        h.storeBlob config.cacheKey s'.cache.toBytes = h) := by
  obtain ⟨info, start, hdecode, hunits, hresume, hs, hh⟩ := importSections_eq_ok.mp himport
  let i : Importer := ⟨info, config⟩
  have hi : i.info.Indexed := DebugInfo.indexed_of_decode hdecode hsize
  have hstart : newSession (Host.built pointerSize calls) = start := by
    unfold resumeSession at hresume
    rw [hnew] at hresume
    exact Except.ok.inj hresume
  subst hstart
  -- the first run ends where there is nothing left to do
  obtain ⟨τ, hτ, htrace, hx⟩ := exhausted_performAll (i := i) hi (idle_start pointerSize calls)
    (attributed_start _) fun _ => rfl
  obtain rfl : s = τ.session := hs.trans hτ.symm
  have hfinish : i.finish τ.session = τ.session.host.storeBlob config.cacheKey
      τ.session.cache.toBytes := if_pos hpersist
  have hblob : h.loadBlob? config.cacheKey = some τ.session.cache.toBytes := by
    rw [hh, hfinish]
    exact SortedMap.get?_insert_self _ _ _
  have htypes' : τ.session.host.database.types.size < UInt32.size := by
    rw [hh, hfinish] at htypes
    exact htypes
  -- the second one resumes it, so it does what the first would have done if it had gone on
  obtain ⟨resumed, hresume', hextend⟩ := resumeSession_finish (i := i) hpersist
    (Trace.consistent htrace .empty) (hx.sound.narrow (.refl _) htypes') hx.idle
  obtain ⟨hhost, hrevises⟩ := (hx.echoes hi).resumed hextend
  let s' := i.performAll [.runTypes, .runSecondPass, .runFrames] resumed
  have hfinish' : i.finish s' = h.storeBlob config.cacheKey s'.cache.toBytes := by
    have hkept : s'.host = h := by rw [hhost, host_resumeSession hresume', hh]
    rw [← hkept]
    exact if_pos hpersist
  rw [← hh] at hresume'
  refine ⟨info, s', hdecode, importSections_eq_ok.mpr
    ⟨info, resumed, hdecode, hunits, hresume', rfl, hfinish'.symm⟩, hblob, hrevises, ?_⟩
  intro hwalks hnames
  rw [hrevises.eq hwalks hnames]
  exact Host.storeBlob_eq_self hblob

/-- The structure of `tangled` that stays pending is gone over again, and nothing changes. -/
theorem importSections_again_tangled :
    ∃ h s s', tangled.entries.size < UInt64.size ∧
      (Host.built 4 []).loadBlob? "dwarfimport.offset_cache" = none ∧
      importSections tangled {} (Host.built 4 []) = .ok (h, s) ∧
      h.database.types.size < UInt32.size ∧ s.cache.isPending 25 = true ∧
      importSections tangled {} h = .ok (h, s') := by
  have hsize : tangled.entries.size < UInt64.size := by decide
  have hrun : (importSections tangled {} (Host.built 4 [])).toOption.any (fun (h, s) =>
      decide (h.database.types.size < UInt32.size ∧ s.cache.isPending 25 = true)) = true := by
    decide +kernel
  have hentries : (DebugInfo.decode tangled).toOption.any (fun info =>
      info.units.toList.all fun slot => slot.content.toOption.all fun u =>
        (List.range u.tree.nodes.size).all fun k =>
          decide (k ∈ u.tree.preorder) && (u.die? k).all fun d => !decide d.RepeatsName) =
      true := by
    decide +kernel
  obtain ⟨⟨h, s⟩, himport, hrun⟩ := Except.of_any_toOption hrun
  obtain ⟨htypes, hpending⟩ := of_decide_eq_true hrun
  obtain ⟨info, s', hdecode, hagain, -, -, hsame⟩ :=
    importSections_again hsize rfl 4 [] rfl himport htypes
  obtain ⟨info', hdecode', hentries⟩ := Except.of_any_toOption hentries
  rw [hdecode] at hdecode'
  cases hdecode'
  have hentry (d : Die) (hd : info.Holds d) : info.Walks d ∧ ¬ d.RepeatsName := by
    obtain ⟨slot, hslot, hu, hd⟩ := hd
    obtain ⟨-, -, hnode⟩ := DebugInfo.die?_index hd
    have hunit := List.all_eq_true.mp hentries slot (by simpa using hslot)
    rw [hu] at hunit
    have hk := List.all_eq_true.mp hunit d.index
      (List.mem_range.mpr (Array.getElem?_eq_some_iff.mp hnode).1)
    rw [hd] at hk
    obtain ⟨hwalked, hnames⟩ := Bool.and_eq_true_iff.mp hk
    exact ⟨⟨slot, hslot, d.unit, hu, List.mem_filterMap.mpr ⟨_, of_decide_eq_true hwalked, hd⟩⟩,
      by simpa using hnames⟩
  have hkept := hsame (fun d hd _ => (hentry d hd).1) fun d hd => (hentry d hd).2
  rw [hkept] at hagain
  exact ⟨h, s, s', hsize, rfl, himport, htypes, hpending, hagain⟩

/-! ## What only a second run finds out -/

/-- A structure `s` with a member whose type `u` lies beside the root of the unit; `r`, which is
another name for itself and for which `u` is another name; and a structure `t` with two members of
one name, the types of which are `r` and a pointer to `t`. -/
def looped : Sections := .inPlace
  ⟨#[1, 17, 1, 0, 0, 2, 19, 1, 3, 8, 0, 0, 3, 13, 0, 3, 8, 73, 19, 56, 11, 0, 0, 4, 15, 0, 73, 19,
    0, 0, 5, 22, 0, 3, 8, 73, 19, 0, 0, 0]⟩
  ⟨#[60, 0, 0, 0, 4, 0, 0, 0, 0, 0, 4, 1, 2, 115, 0, 3, 99, 0, 57, 0, 0, 0, 0, 0, 5, 114, 0, 24, 0,
    0, 0, 2, 116, 0, 3, 99, 0, 24, 0, 0, 0, 0, 3, 99, 0, 51, 0, 0, 0, 4, 0, 4, 31, 0, 0, 0, 0, 5,
    117, 0, 24, 0, 0, 0]⟩

/-- The blob is another one after the second run: `u`, at offset 57, was dismissed, and `t`, at
offset 31, is no longer pending. -/
theorem looped_revised :
    ∃ h s h' s', (Host.built 4 []).loadBlob? "dwarfimport.offset_cache" = none ∧
      importSections looped {} (Host.built 4 []) = .ok (h, s) ∧
      importSections looped {} h = .ok (h', s') ∧
      h'.loadBlob? "dwarfimport.offset_cache" ≠ h.loadBlob? "dwarfimport.offset_cache" ∧
      s.cache.get? 57 = none ∧ s'.cache.get? 57 = some .useless ∧
      s.cache.get? 31 = some (.type ⟨2⟩ true) ∧ s'.cache.get? 31 = some (.type ⟨2⟩ false) := by
  have hrun : (importSections looped {} (Host.built 4 [])).toOption.any (fun (h, s) =>
      (importSections looped {} h).toOption.any fun (h', s') =>
        decide (h'.loadBlob? "dwarfimport.offset_cache" ≠ h.loadBlob? "dwarfimport.offset_cache" ∧
          s.cache.get? 57 = none ∧ s'.cache.get? 57 = some .useless ∧
          s.cache.get? 31 = some (.type ⟨2⟩ true) ∧
          s'.cache.get? 31 = some (.type ⟨2⟩ false))) = true := by
    decide +kernel
  obtain ⟨⟨h, s⟩, himport, hrun⟩ := Except.of_any_toOption hrun
  obtain ⟨⟨h', s'⟩, himport', hrun⟩ := Except.of_any_toOption hrun
  exact ⟨h, s, h', s', rfl, himport, himport', of_decide_eq_true hrun⟩

end DebugSymbols
