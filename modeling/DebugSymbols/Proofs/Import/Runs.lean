import DebugSymbols.Proofs.Import.Soundness

/-!
Runs of steps as traces.  `Step.Tracks` says that a step, run from the session of a history, makes
a trace, leaves the types that are being resolved as they were, and ends as stated;
`Attempt.Tracks` says so of attempts, which may end in an error as well.  There is a rule for
every way in which steps are put together.
-/

namespace DebugSymbols

open Importer

variable {i : Importer} {scope : Scope} {σ : History} {α β : Type}

/-! ## Steps -/

namespace Step

def Tracks (i : Importer) (scope : Scope) (σ : History) (m : Step α)
    (post : α → History → Prop) : Prop :=
  ∃ a τ, m.run σ.session = (a, τ.session) ∧ i.Trace scope σ τ ∧
    τ.session.resolving = σ.session.resolving ∧ post a τ

theorem tracks_pure {a : α} {post : α → History → Prop} (h : post a σ) :
    Tracks i scope σ (pure a) post :=
  ⟨a, σ, rfl, .refl, rfl, h⟩

theorem tracks_bind {m : Step α} {f : α → Step β} {mid : α → History → Prop}
    {post : β → History → Prop} (hm : Tracks i scope σ m mid)
    (hf : ∀ a τ, i.Trace scope σ τ → τ.session.resolving = σ.session.resolving → mid a τ →
      Tracks i scope τ (f a) post) :
    Tracks i scope σ (m >>= f) post := by
  obtain ⟨a, τ, hrun, htrace, hstack, hmid⟩ := hm
  obtain ⟨b, υ, hrun', htrace', hstack', hpost⟩ := hf a τ htrace hstack hmid
  refine ⟨b, υ, ?_, htrace.trans htrace', hstack'.trans hstack, hpost⟩
  rw [StateT.run_bind, hrun]
  exact hrun'

theorem Tracks.imp {m : Step α} {post post' : α → History → Prop} (h : Tracks i scope σ m post)
    (himp : ∀ a τ, i.Trace scope σ τ → τ.session.resolving = σ.session.resolving → post a τ →
      post' a τ) :
    Tracks i scope σ m post' := by
  obtain ⟨a, τ, hrun, htrace, hstack, hpost⟩ := h
  exact ⟨a, τ, hrun, htrace, hstack, himp a τ htrace hstack hpost⟩

theorem tracks_get_bind {f : Session → Step α} {post : α → History → Prop}
    (h : Tracks i scope σ (f σ.session) post) : Tracks i scope σ (get >>= f) post := h

/-- How a step ends can be read off its run. -/
theorem Tracks.run {m : Step α} {post : α → History → Prop} (h : Tracks i scope σ m post) :
    Tracks i scope σ m fun a τ => m.run σ.session = (a, τ.session) ∧ post a τ := by
  obtain ⟨a, τ, hrun, htrace, hstack, hpost⟩ := h
  exact ⟨a, τ, hrun, htrace, hstack, hrun, hpost⟩

/-- A single change that leaves the types that are being resolved alone. -/
theorem tracks_modify {f : Session → Session} {τ : History} {post : PUnit → History → Prop}
    (hc : i.Change scope σ τ) (hf : f σ.session = τ.session)
    (hstack : τ.session.resolving = σ.session.resolving) (h : post ⟨⟩ τ) :
    Tracks i scope σ (modify f) post := by
  refine ⟨⟨⟩, τ, ?_, .single hc, hstack, h⟩
  rw [← hf]
  rfl

theorem tracks_warn (w : Warning) :
    Tracks i scope σ (warn w) fun _ τ =>
      τ.session.cache = σ.session.cache ∧ τ.session.host = σ.session.host :=
  tracks_modify (.note σ σ.session.stats (σ.session.warnings.push w)) rfl rfl ⟨rfl, rfl⟩

theorem tracks_count (f : Stats → Stats) :
    Tracks i scope σ (count f) fun _ τ =>
      τ.session.cache = σ.session.cache ∧ τ.session.host = σ.session.host :=
  tracks_modify (.note σ (f σ.session.stats) σ.session.warnings) rfl rfl ⟨rfl, rfl⟩

theorem tracks_fail (offset : UInt64) (e : ImportError) :
    Tracks i scope σ (fail offset e) fun _ τ =>
      τ.session.cache = σ.session.cache ∧ τ.session.host = σ.session.host :=
  tracks_bind (tracks_warn _) fun _ _ _ _ h =>
    (tracks_count _).imp fun _ _ _ _ h' => ⟨h'.1.trans h.1, h'.2.trans h.2⟩

theorem tracks_markUseless {x : UInt64} (hx : x ∉ σ.session.resolving) :
    Tracks i scope σ (updateCache (·.markUseless x)) fun _ τ =>
      τ.session.cache = σ.session.cache.markUseless x :=
  tracks_modify (.dismiss σ hx) rfl rfl rfl

/-- What holds of each element when it was gone over, and lasts, holds of all in the end. -/
theorem tracks_forM_all {f : α → Step PUnit} {P : α → History → Prop} {l : List α}
    (hf : ∀ a ∈ l, ∀ τ, i.Trace scope σ τ → τ.session.resolving = σ.session.resolving →
      Tracks i scope τ (f a) fun _ => P a)
    (hlast : ∀ a τ υ, i.Trace scope σ τ → i.Trace scope τ υ → P a τ → P a υ) :
    Tracks i scope σ (l.forM f) fun _ τ => ∀ a ∈ l, P a τ := by
  induction l generalizing σ with
  | nil => exact tracks_pure nofun
  | cons a rest ih =>
    change Tracks i scope σ (f a >>= fun _ => rest.forM f) _
    refine tracks_bind (hf a (by simp) σ .refl rfl) fun _ τ htrace hstack ha => ?_
    refine (ih ?_ ?_).imp fun _ υ htrace' _ hall b hb => ?_
    · exact fun b hb υ ht hs => hf b (by simp [hb]) υ (htrace.trans ht) (hs.trans hstack)
    · exact fun b υ φ ht => hlast b υ φ (htrace.trans ht)
    · rcases List.mem_cons.mp hb with rfl | hb
      · exact hlast _ τ υ htrace htrace' ha
      · exact hall b hb

theorem tracks_forM {f : α → Step PUnit} {l : List α}
    (hf : ∀ a ∈ l, ∀ τ, i.Trace scope σ τ → τ.session.resolving = σ.session.resolving →
      Tracks i scope τ (f a) fun _ _ => True) :
    Tracks i scope σ (l.forM f) fun _ _ => True :=
  (tracks_forM_all (P := fun _ _ => True) hf fun _ _ _ _ _ _ => trivial).imp
    fun _ _ _ _ _ => trivial

/-- What going over each element keeps is kept in the end. -/
theorem forM_keeps {P : Session → Prop} {f : α → Step PUnit} {l : List α}
    (hf : ∀ a ∈ l, ∀ s, P s → P ((f a).run s).2) {s : Session} (hs : P s) :
    P ((l.forM f).run s).2 := by
  induction l generalizing s with
  | nil => exact hs
  | cons a rest ih => exact ih (fun b hb => hf b (by simp [hb])) (hf a (by simp) s hs)

end Step

/-! ## Attempts -/

namespace Attempt

/-- How an attempt ends: with success, or else with an error. -/
def Ends (ok : α → History → Prop) (err : ImportError → History → Prop) :
    Except ImportError α → History → Prop
  | .ok a => ok a
  | .error e => err e

def Tracks (i : Importer) (scope : Scope) (σ : History) (m : Attempt α)
    (ok : α → History → Prop) (err : ImportError → History → Prop) : Prop :=
  Step.Tracks i scope σ m.run (Ends ok err)

variable {ok : α → History → Prop} {err : ImportError → History → Prop}

theorem tracks_pure {a : α} (h : ok a σ) : Tracks i scope σ (pure a) ok err :=
  Step.tracks_pure (a := Except.ok a) h

theorem tracks_throw {e : ImportError} (h : err e σ) : Tracks i scope σ (throw e) ok err :=
  Step.tracks_pure (a := Except.error e) h

theorem tracks_bind {m : Attempt α} {f : α → Attempt β} {ok' : β → History → Prop}
    (hm : Tracks i scope σ m ok err)
    (hf : ∀ a τ, i.Trace scope σ τ → τ.session.resolving = σ.session.resolving → ok a τ →
      Tracks i scope τ (f a) ok' err) :
    Tracks i scope σ (m >>= f) ok' err := by
  unfold Tracks
  rw [ExceptT.run_bind]
  refine Step.tracks_bind hm fun r τ htrace hstack hmid => ?_
  cases r with
  | ok a => exact hf a τ htrace hstack hmid
  | error e => exact Step.tracks_pure hmid

theorem Tracks.imp {m : Attempt α} {ok' : α → History → Prop} {err' : ImportError → History → Prop}
    (h : Tracks i scope σ m ok err)
    (hok : ∀ a τ, i.Trace scope σ τ → τ.session.resolving = σ.session.resolving → ok a τ →
      ok' a τ)
    (herr : ∀ e τ, err e τ → err' e τ) : Tracks i scope σ m ok' err' := by
  refine Step.Tracks.imp h fun r τ htrace hstack hpost => ?_
  cases r with
  | ok a => exact hok a τ htrace hstack hpost
  | error e => exact herr e τ hpost

theorem Tracks.run {m : Attempt α} (h : Tracks i scope σ m ok err) :
    Tracks i scope σ m (fun a τ => m.run.run σ.session = (.ok a, τ.session) ∧ ok a τ) err := by
  refine (Step.Tracks.run h).imp fun r τ _ _ ⟨hrun, hend⟩ => ?_
  cases r with
  | ok a => exact ⟨hrun, hend⟩
  | error e => exact hend

theorem run_bind_ok {m : Attempt α} {f : α → Attempt β} {s t : Session} {a : α}
    (h : m.run.run s = (.ok a, t)) : (m >>= f).run.run s = (f a).run.run t := by
  rw [ExceptT.run_bind, StateT.run_bind, h]
  rfl

/-- What is left to do after a trace is a trace from there on. -/
theorem Tracks.after {m : Attempt α} {m' : Attempt α} {τ : History} (h : Tracks i scope τ m' ok err)
    (htrace : i.Trace scope σ τ) (hstack : τ.session.resolving = σ.session.resolving)
    (hrun : m.run.run σ.session = m'.run.run τ.session) : Tracks i scope σ m ok err := by
  obtain ⟨a, υ, hrun', htrace', hstack', hpost⟩ := h
  exact ⟨a, υ, hrun.trans hrun', htrace.trans htrace', hstack'.trans hstack, hpost⟩

theorem run_get_bind (f : Session → Attempt α) (s : Session) :
    (get >>= f).run.run s = (f s).run.run s := rfl

theorem run_lift {m : Step α} {s t : Session} {a : α} (h : m.run s = (a, t)) :
    (liftM m : Attempt α).run.run s = (.ok a, t) := by
  change (m >>= fun a => pure (Except.ok a)).run s = _
  rw [StateT.run_bind, h]
  rfl

/-- A step as an attempt that succeeds. -/
theorem tracks_lift {m : Step α} (h : Step.Tracks i scope σ m ok) :
    Tracks i scope σ (liftM m) ok err := by
  obtain ⟨a, τ, hrun, htrace, hstack, hpost⟩ := h
  exact ⟨.ok a, τ, run_lift hrun, htrace, hstack, hpost⟩

/-! What is looked at changes nothing. -/

theorem tracks_get_bind {f : Session → Attempt α} (h : Tracks i scope σ (f σ.session) ok err) :
    Tracks i scope σ (get >>= f) ok err := h

theorem tracks_read_bind {x : Except DebugInfo.Error β} {f : β → Attempt α}
    (hok : ∀ a, x = .ok a → Tracks i scope σ (f a) ok err)
    (herr : ∀ e, x = .error e → err (.debugInfo e) σ) :
    Tracks i scope σ (read x >>= f) ok err := by
  cases x with
  | ok a => exact hok a rfl
  | error e => exact tracks_throw (herr e rfl)

theorem tracks_ask_bind {f : Session → Except ImportError β} {g : β → Attempt α}
    (hok : ∀ a, f σ.session = .ok a → Tracks i scope σ (g a) ok err)
    (herr : ∀ e, f σ.session = .error e → err e σ) :
    Tracks i scope σ (ask f >>= g) ok err := by
  unfold ask
  rw [bind_assoc]
  refine tracks_get_bind ?_
  cases h : f σ.session with
  | ok a => exact hok a h
  | error e => exact tracks_throw (herr e h)

theorem tracks_map {m : Attempt α} {f : α → β} {ok : β → History → Prop}
    (h : Tracks i scope σ m (fun a τ => ok (f a) τ) err) : Tracks i scope σ (f <$> m) ok err := by
  rw [map_eq_pure_bind]
  exact tracks_bind h fun a τ _ _ ha => tracks_pure ha

end Attempt

end DebugSymbols
