import Mathlib
import Telemetry.Proofs.Document.Keys
import Telemetry.Settings

namespace Telemetry

theorem Except.bind_eq_ok_iff {ε α β : Type} {x : Except ε α} {f : α → Except ε β} {b : β} :
    (x >>= f) = .ok b ↔ ∃ a, x = .ok a ∧ f a = .ok b := by
  cases x with
  | error e => exact ⟨(nomatch ·), fun ⟨_, h, _⟩ => nomatch h⟩
  | ok a => exact ⟨fun h => ⟨a, rfl, h⟩, fun ⟨_, ha, h⟩ => Except.ok.inj ha ▸ h⟩

namespace Settings

variable {α β : Type}

/-- A setting: where it is kept, the names under which the layers give it, and how each of them is
read. -/
structure Property (α : Type) where
  get : Settings → α
  sectionName : String
  key : String
  variableName : String
  read : Document → Except SettingProblem α
  parse : Text → Except SettingProblem α

namespace Property

def valuesLength : Property Int :=
  ⟨Settings.valuesLength, "counters", "values_buffer_length",
    "TACHYON_COUNTERS_VALUES_BUFFER_LENGTH", sizeOf, fun t => (Quantity.size t).map Int.ofNat⟩

def timeout : Property Int :=
  ⟨Settings.timeout, "counters", "free_to_reuse_timeout",
    "TACHYON_COUNTERS_FREE_TO_REUSE_TIMEOUT", durationOf,
    fun t => (Quantity.duration t).map Int.ofNat⟩

def charset : Property Text :=
  ⟨Settings.charset, "counters", "label_charset", "TACHYON_LABEL_CHARSET", textOf, .ok⟩

def name : Property Text :=
  ⟨Settings.name, "counters", "shm_name", "TACHYON_COUNTERS_SHM_NAME", textOf, .ok⟩

def level : Property Log.Level :=
  ⟨Settings.level, "logging", "level", "TACHYON_LOG_LEVEL", levelOf, levelNamed⟩

variable (p : Property α) (d : Document) (env : Environment)

/-- What a document says of a property; a section that is no object says nothing. -/
def said? : Option Document :=
  (d.get? (ascii p.sectionName)).bind (Document.get? · (ascii p.key))

def documented : Except SettingProblem α :=
  match p.said? d with
  | none => .ok (p.get defaults)
  | some v => p.read v

/-- What becomes of a property: the uppermost layer that gives it decides. -/
def resolve : Except SettingProblem α :=
  match valueOf? env p.variableName with
  | none => p.documented d
  | some t => p.parse t

/-- Every layer that gives the property can be read. -/
structure Legible : Prop where
  document : ∀ v, p.said? d = some v → ∃ a, p.read v = .ok a
  environment : ∀ t, valueOf? env p.variableName = some t → ∃ a, p.parse t = .ok a

/-- The default document gives the property its default, and not as an object. -/
def Grounded : Prop :=
  ∃ v, p.said? defaultDocument = some v ∧ v.isObject = false ∧ p.read v = .ok (p.get defaults)

variable {p d env}

theorem Grounded.documented_merge (h : p.Grounded) (hd : d.Tidy) :
    p.documented (defaultDocument.merge d) = p.documented d := by
  obtain ⟨leaf, hleaf, hplain, hread⟩ := h
  obtain ⟨section_, hsection, hleaf⟩ := Option.bind_eq_some_iff.1 hleaf
  have hmerge := Document.get?_merge hd defaultDocument (ascii p.sectionName)
  rw [hsection] at hmerge
  cases hgiven : d.get? (ascii p.sectionName) with
  | none =>
    rw [hgiven] at hmerge
    simp only [documented, said?, hmerge, hgiven, Option.bind_some, Option.bind_none, hleaf, hread]
  | some given =>
    rw [hgiven] at hmerge
    simp only [documented, said?, hmerge, hgiven, Option.bind_some]
    cases hobject : given.isObject with
    | false => rw [Document.layOver_of_not_object (.inl hobject)]
    | true =>
      -- the leaf of the section is no object, so that nothing is left of it below a value
      rw [Document.layOver_of_objects (Document.isObject_of_get? hleaf) hobject,
        Document.get?_merge (hd.get? hgiven), hleaf]
      cases given.get? (ascii p.key) with
      | none => exact hread
      | some v => exact congrArg p.read (Document.layOver_of_not_object (.inr hplain))

theorem legible_iff : p.Legible d env ↔
    (∃ a, p.documented d = .ok a) ∧ ∃ a, p.resolve d env = .ok a := by
  simp only [documented, resolve]
  constructor
  · intro h
    have hdocument : ∃ a, p.documented d = .ok a := by
      rw [documented]
      cases hv : p.said? d with
      | none => exact ⟨_, rfl⟩
      | some v => exact h.document v hv
    refine ⟨hdocument, ?_⟩
    cases ht : valueOf? env p.variableName with
    | none => exact hdocument
    | some t => exact h.environment t ht
  · rintro ⟨hdocument, hresolve⟩
    refine ⟨fun v hv => ?_, fun t ht => ?_⟩
    · simpa only [hv] using hdocument
    · simpa only [ht] using hresolve

end Property

structure Each (P : ∀ {α : Type}, Property α → Prop) : Prop where
  valuesLength : P Property.valuesLength
  timeout : P Property.timeout
  charset : P Property.charset
  name : P Property.name
  level : P Property.level

theorem Each.mono {P Q : ∀ {α : Type}, Property α → Prop}
    (h : ∀ {α : Type} (p : Property α), P p → Q p) (hp : Each P) : Each Q :=
  ⟨h _ hp.valuesLength, h _ hp.timeout, h _ hp.charset, h _ hp.name, h _ hp.level⟩

theorem Each.and {P Q : ∀ {α : Type}, Property α → Prop} (hp : Each P) (hq : Each Q) :
    Each fun p => P p ∧ Q p :=
  ⟨⟨hp.valuesLength, hq.valuesLength⟩, ⟨hp.timeout, hq.timeout⟩, ⟨hp.charset, hq.charset⟩,
    ⟨hp.name, hq.name⟩, ⟨hp.level, hq.level⟩⟩

theorem Each.exists {R : ∀ {α : Type}, Property α → α → Prop} (h : Each fun p => ∃ a, R p a)
    (document : Document) (source : Text) :
    ∃ s : Settings, Each (fun p => R p (p.get s)) ∧ s.document = document ∧ s.source = source := by
  obtain ⟨⟨n, hn⟩, ⟨t, ht⟩, ⟨c, hc⟩, ⟨m, hm⟩, ⟨l, hl⟩⟩ := h
  exact ⟨⟨n, t, c, m, l, document, source⟩, ⟨hn, ht, hc, hm, hl⟩, rfl, rfl⟩

theorem grounded : Each Property.Grounded :=
  ⟨⟨_, rfl, rfl, rfl⟩, ⟨_, rfl, rfl, rfl⟩, ⟨_, rfl, rfl, rfl⟩, ⟨_, rfl, rfl, rfl⟩, ⟨_, rfl, rfl, rfl⟩⟩

/-- Values that a board can be made from. -/
structure Suitable (valuesLength : Int) (charset name : Text) : Prop where
  positive : 1 ≤ valuesLength
  addressable : valuesLength ≤ 536870911
  known : charset = ascii "ascii" ∨ charset = ascii "utf-8"
  named : name ≠ []

section Layer

variable {x : Except SettingProblem α} {place : Text} {p : Property α} {a b : α} {d : Document}
  {env : Environment}

theorem under_eq_ok_iff : under place x = .ok a ↔ x = .ok a := by
  cases x with
  | error e => exact ⟨(nomatch ·), (nomatch ·)⟩
  | ok b => exact ⟨fun h => by cases h; rfl, fun h => by cases h; rfl⟩

theorem override_eq (p : Property α) (d : Document) :
    override (d.get? (ascii p.sectionName)) p.sectionName p.key (p.get defaults) p.read =
      under (ascii (p.sectionName ++ "." ++ p.key)) (p.documented d) := by
  unfold override Property.documented Property.said?
  cases (d.get? (ascii p.sectionName)).bind (Document.get? · (ascii p.key)) <;> rfl

theorem override_eq_ok_iff (hp : p.Grounded) (hd : d.Tidy) :
    override ((defaultDocument.merge d).get? (ascii p.sectionName)) p.sectionName p.key
      (p.get defaults) p.read = .ok a ↔ p.documented d = .ok a := by
  rw [override_eq, under_eq_ok_iff, hp.documented_merge hd]

theorem overrideBy_eq_ok_iff (h : p.documented d = .ok a) :
    overrideBy env p.variableName a p.parse = .ok b ↔ p.resolve d env = .ok b := by
  cases ht : valueOf? env p.variableName with
  | none => simp only [overrideBy, Property.resolve, ht, h, Except.ok.injEq]
  | some t => simp only [overrideBy, Property.resolve, ht, under_eq_ok_iff]

end Layer

def withSource (source : Text) (s : Settings) : Settings := { s with source }

/-- What becomes of settings whose document was laid over the defaults. -/
def assemble (s : Settings) (env : Environment) : Except Fault Settings := do
  (← (← s.applyDocument s.document).applyEnvironment env).validate

section Assembly

variable {d : Document} {env : Environment} {s s' : Settings} {source : Text}

theorem applyDocument_eq_ok_iff (hd : d.Tidy) :
    (withSource source (layered d)).applyDocument (withSource source (layered d)).document = .ok s ↔
      Each (fun p => p.documented d = .ok (p.get s)) ∧
        s.document = defaultDocument.merge d ∧ s.source = source := by
  simp only [applyDocument, Except.bind_eq_ok_iff]
  constructor
  · rintro ⟨n, hn, t, ht, c, hc, m, hm, l, hl, hs⟩
    cases hs
    refine ⟨⟨?_, ?_, ?_, ?_, ?_⟩, rfl, rfl⟩
    · exact (override_eq_ok_iff grounded.valuesLength hd).1 hn
    · exact (override_eq_ok_iff grounded.timeout hd).1 ht
    · exact (override_eq_ok_iff grounded.charset hd).1 hc
    · exact (override_eq_ok_iff grounded.name hd).1 hm
    · exact (override_eq_ok_iff grounded.level hd).1 hl
  · rintro ⟨h, hdocument, hsource⟩
    refine ⟨_, (override_eq_ok_iff grounded.valuesLength hd).2 h.valuesLength,
      _, (override_eq_ok_iff grounded.timeout hd).2 h.timeout,
      _, (override_eq_ok_iff grounded.charset hd).2 h.charset,
      _, (override_eq_ok_iff grounded.name hd).2 h.name,
      _, (override_eq_ok_iff grounded.level hd).2 h.level, ?_⟩
    cases s
    cases hdocument
    cases hsource
    rfl

theorem applyEnvironment_eq_ok_iff (h : Each fun p => p.documented d = .ok (p.get s)) :
    s.applyEnvironment env = .ok s' ↔
      Each (fun p => p.resolve d env = .ok (p.get s')) ∧
        s'.document = s.document ∧ s'.source = s.source := by
  simp only [applyEnvironment, Except.bind_eq_ok_iff]
  constructor
  · rintro ⟨n, hn, t, ht, m, hm, c, hc, l, hl, hs⟩
    cases hs
    refine ⟨⟨?_, ?_, ?_, ?_, ?_⟩, rfl, rfl⟩
    · exact (overrideBy_eq_ok_iff h.valuesLength).1 hn
    · exact (overrideBy_eq_ok_iff h.timeout).1 ht
    · exact (overrideBy_eq_ok_iff h.charset).1 hc
    · exact (overrideBy_eq_ok_iff h.name).1 hm
    · exact (overrideBy_eq_ok_iff h.level).1 hl
  · rintro ⟨h', hdocument, hsource⟩
    refine ⟨_, (overrideBy_eq_ok_iff h.valuesLength).2 h'.valuesLength,
      _, (overrideBy_eq_ok_iff h.timeout).2 h'.timeout,
      _, (overrideBy_eq_ok_iff h.name).2 h'.name,
      _, (overrideBy_eq_ok_iff h.charset).2 h'.charset,
      _, (overrideBy_eq_ok_iff h.level).2 h'.level, ?_⟩
    cases s'
    cases hdocument
    cases hsource
    rfl

theorem validate_eq_ok_iff :
    s.validate = .ok s' ↔ s = s' ∧ Suitable s.valuesLength s.charset s.name := by
  have hmax : maxValuesLength = 536870911 := rfl
  simp only [validate, hmax]
  constructor
  · intro h
    split at h
    · nomatch h
    · rename_i hlength
      split at h
      · nomatch h
      · rename_i hcharset
        split at h
        · nomatch h
        · rename_i hname
          refine ⟨Except.ok.inj h, by omega, by omega, ?_, fun hnil => hname ?_⟩
          · by_cases hascii : s.charset = ascii "ascii"
            · exact .inl hascii
            · exact .inr (Decidable.not_not.1 fun hne => hcharset ⟨hascii, hne⟩)
          · exact List.isEmpty_iff.2 hnil
  · rintro ⟨rfl, h⟩
    have hpositive := h.positive
    have haddressable := h.addressable
    rw [if_neg (by omega), if_neg, if_neg (fun hempty => h.named (List.isEmpty_iff.1 hempty))]
    rintro ⟨hascii, hutf8⟩
    exact h.known.elim hascii hutf8

theorem assemble_eq_ok_iff (hd : d.Tidy) :
    assemble (withSource source (layered d)) env = .ok s ↔
      Each (fun p => p.Legible d env) ∧ Each (fun p => p.resolve d env = .ok (p.get s)) ∧
        Suitable s.valuesLength s.charset s.name ∧
        s.document = defaultDocument.merge d ∧ s.source = source := by
  simp only [assemble, Except.bind_eq_ok_iff, applyDocument_eq_ok_iff hd, validate_eq_ok_iff]
  constructor
  · rintro ⟨s₁, ⟨hdocumented, hdocument, hsource⟩, s₂, henv, rfl, hsuitable⟩
    obtain ⟨hresolved, hdocument', hsource'⟩ := (applyEnvironment_eq_ok_iff hdocumented).1 henv
    refine ⟨?_, hresolved, hsuitable, hdocument'.trans hdocument, hsource'.trans hsource⟩
    exact (hdocumented.and hresolved).mono fun p h =>
      Property.legible_iff.2 ⟨⟨_, h.1⟩, ⟨_, h.2⟩⟩
  · rintro ⟨hlegible, hresolved, hsuitable, hdocument, hsource⟩
    obtain ⟨s₁, hdocumented, hdocument₁, hsource₁⟩ := Each.exists
      (hlegible.mono fun p h => (Property.legible_iff.1 h).1) (defaultDocument.merge d) source
    refine ⟨s₁, ⟨hdocumented, hdocument₁, hsource₁⟩, s, ?_, rfl, hsuitable⟩
    refine (applyEnvironment_eq_ok_iff hdocumented).2 ⟨hresolved, ?_, ?_⟩
    · rw [hdocument, hdocument₁]
    · rw [hsource, hsource₁]

end Assembly

def Invalid (x : Except Fault α) : Prop := ∀ e, x = .error e → e.kind = .invalidArgument

section Invalid

variable {s : Settings} {env : Environment}

theorem invalid_ok (a : α) : Invalid (.ok a) := fun _ h => nomatch h

theorem invalid_setting (place : Text) (problem : SettingProblem) :
    Invalid (.error (.setting place problem) : Except Fault α) := by
  intro e h
  cases h
  rfl

theorem Invalid.bind {x : Except Fault α} {f : α → Except Fault β} (hx : Invalid x)
    (hf : ∀ a, Invalid (f a)) : Invalid (x >>= f) := by
  cases x with
  | error e =>
    intro e' h
    cases h
    exact hx e rfl
  | ok a => exact hf a

theorem invalid_under (place : Text) (x : Except SettingProblem α) : Invalid (under place x) := by
  cases x with
  | error problem => exact invalid_setting place problem
  | ok a => exact invalid_ok a

theorem invalid_override {section_ : Option Document} {sectionName key : String} {current : α}
    {read : Document → Except SettingProblem α} :
    Invalid (override section_ sectionName key current read) := by
  rw [override]
  split
  · exact invalid_ok _
  · exact invalid_under _ _

theorem invalid_overrideBy {name : String} {current : α}
    {read : Text → Except SettingProblem α} : Invalid (overrideBy env name current read) := by
  rw [overrideBy]
  split
  · exact invalid_ok _
  · exact invalid_under _ _

theorem invalid_validate : Invalid s.validate := by
  rw [validate]
  split
  · exact invalid_setting _ _
  · split
    · exact invalid_setting _ _
    · split
      · exact invalid_setting _ _
      · exact invalid_ok _

theorem invalid_assemble : Invalid (assemble s env) := by
  refine .bind ?_ fun _ => .bind ?_ fun _ => invalid_validate
  · exact .bind invalid_override fun _ => .bind invalid_override fun _ =>
      .bind invalid_override fun _ => .bind invalid_override fun _ =>
        .bind invalid_override fun _ => invalid_ok _
  · exact .bind invalid_overrideBy fun _ => .bind invalid_overrideBy fun _ =>
      .bind invalid_overrideBy fun _ => .bind invalid_overrideBy fun _ =>
        .bind invalid_overrideBy fun _ => invalid_ok _

end Invalid

section Alone

variable {d : Document} {env : Environment} {source : Text}

theorem applyDocument_withSource (s : Settings) (d : Document) (source : Text) :
    (withSource source s).applyDocument d = withSource source <$> s.applyDocument d := by
  simp only [applyDocument, map_bind, map_pure]
  rfl

theorem validate_withSource (s : Settings) (source : Text) :
    (withSource source s).validate = withSource source <$> s.validate := by
  simp only [validate, apply_ite (withSource source <$> ·)]
  rfl

theorem overrideBy_of_unset {p : Property α} (h : valueOf? env p.variableName = none) (a : α) :
    overrideBy env p.variableName a p.parse = .ok a := by
  rw [overrideBy, h]

theorem applyEnvironment_of_unset (h : Each fun p => valueOf? env p.variableName = none)
    (s : Settings) : s.applyEnvironment env = .ok s := by
  have hlength := overrideBy_of_unset h.valuesLength s.valuesLength
  have htimeout := overrideBy_of_unset h.timeout s.timeout
  have hname := overrideBy_of_unset h.name s.name
  have hcharset := overrideBy_of_unset h.charset s.charset
  have hlevel := overrideBy_of_unset h.level s.level
  simp only [Property.valuesLength, Property.timeout, Property.name, Property.charset,
    Property.level] at hlength htimeout hname hcharset hlevel
  rw [applyEnvironment, hlength, htimeout, hname, hcharset, hlevel]
  rfl

theorem assemble_of_unset (h : Each fun p => valueOf? env p.variableName = none) :
    withSource [] <$> assemble (withSource source (layered d)) env = ofDocument d := by
  have hread := applyDocument_withSource (layered d) (layered d).document
  simp only [assemble, ofDocument, applyEnvironment_of_unset h]
  change withSource [] <$> (((withSource source (layered d)).applyDocument (layered d).document) >>=
    validate) = (withSource [] (layered d)).applyDocument (layered d).document >>= validate
  rw [hread, hread]
  cases (layered d).applyDocument (layered d).document with
  | error e => rfl
  | ok s =>
    change withSource [] <$> (withSource source s).validate = (withSource [] s).validate
    rw [validate_withSource, validate_withSource, Functor.map_map]
    rfl

end Alone

/-- What settings become of a document and an environment. -/
structure Layers (d : Document) (env : Environment) (result : Except Fault Settings) : Prop where
  /-- They are accepted exactly if everything that is given can be read and what is left of it in
  the end suits a board. -/
  accepted : (∃ s, result = .ok s) ↔
    Each (fun p => p.Legible d env) ∧
      ∃ n c m, Property.valuesLength.resolve d env = .ok n ∧
        Property.charset.resolve d env = .ok c ∧ Property.name.resolve d env = .ok m ∧
        Suitable n c m
  refused : Invalid result
  resolved : ∀ s, result = .ok s → Each fun p => p.resolve d env = .ok (p.get s)
  document : ∀ s, result = .ok s → s.document = defaultDocument.merge d
  /-- Without variables they are those of the document alone, but for where it was read. -/
  alone : (Each fun p => valueOf? env p.variableName = none) →
    withSource [] <$> result = ofDocument d

section Reading

variable {parser : Document.Parser} {path : Text} {env : Environment} {files : Files}

/-- What a file has to be to end a program: opened but not read, or read up to a number that the
reader has no value for. -/
inductive Unreadable (parser : Document.Parser) : Reading → Fault → Prop
  | failed (reason : OsError) : Unreadable parser (.failed reason) (.fileNotRead reason)
  | beyond {t number : Text} (h : parser t = .error (.beyond number)) :
      Unreadable parser (.content t) (.numberBeyond number)

/-- All that looking for a document can come to. -/
inductive Looks (parser : Document.Parser) (file : Reading) :
    Except Fault (Option Document) → Prop
  | absent : Looks parser file (.ok none)
  | found {t : Text} {d : Document} (h : parser t = .ok d) : Looks parser file (.ok (some d))
  | unreadable {e : Fault} (h : Unreadable parser file e) : Looks parser file (.error e)

theorem looks_documentAt (parser : Document.Parser) (files : Files) (path : Text) :
    Looks parser (files path) (documentAt parser files path) := by
  rw [documentAt]
  by_cases hpath : path.isEmpty
  · rw [if_pos hpath]
    exact .absent
  · rw [if_neg hpath]
    cases files path with
    | unopened => exact .absent
    | failed e => exact .unreadable (.failed e)
    | content t =>
      dsimp only
      cases hread : parser t with
      | ok d =>
        dsimp only
        split
        · exact .absent
        · exact .found hread
      | error flaw =>
        cases flaw with
        | malformed => exact .absent
        | beyond number => exact .unreadable (.beyond hread)

theorem tidy_documentAt (tidies : parser.Tidies) {d : Option Document}
    (h : documentAt parser files path = .ok d) : (d.getD (.object [])).Tidy := by
  have hlooks := looks_documentAt parser files path
  rw [h] at hlooks
  cases hlooks with
  | absent => exact .object List.nodup_nil (fun _ h => nomatch h)
  | found hread => exact tidies _ _ hread

theorem unreadable_of_documentAt {e : Fault} (h : documentAt parser files path = .error e) :
    Unreadable parser (files path) e := by
  have hlooks := looks_documentAt parser files path
  rw [h] at hlooks
  cases hlooks with
  | unreadable hunreadable => exact hunreadable

theorem load_of_documentAt {d : Option Document}
    (h : documentAt parser files (chosenPath path env files) = .ok d) :
    ∃ source, load parser path env files =
      assemble (withSource source (layered (d.getD (.object [])))) env := by
  cases d with
  | none => exact ⟨[], by rw [load, h]; rfl⟩
  | some d => exact ⟨chosenPath path env files, by rw [load, h]; rfl⟩

end Reading

theorem layers_assemble {d : Document} (hd : d.Tidy) (env : Environment) (source : Text) :
    Layers d env (assemble (withSource source (layered d)) env) where
  accepted := by
    constructor
    · rintro ⟨s, hs⟩
      obtain ⟨hlegible, hresolved, hsuitable, -⟩ := (assemble_eq_ok_iff hd).1 hs
      exact ⟨hlegible, _, _, _, hresolved.valuesLength, hresolved.charset, hresolved.name, hsuitable⟩
    · rintro ⟨hlegible, n, c, m, hn, hc, hm, hsuitable⟩
      obtain ⟨s, hresolved, hdocument, hsource⟩ := Each.exists
        (hlegible.mono fun p h => (Property.legible_iff.1 h).2) (defaultDocument.merge d) source
      have hn' := Except.ok.inj (hn.symm.trans hresolved.valuesLength)
      have hc' := Except.ok.inj (hc.symm.trans hresolved.charset)
      have hm' := Except.ok.inj (hm.symm.trans hresolved.name)
      subst hn' hc' hm'
      exact ⟨s, (assemble_eq_ok_iff hd).2 ⟨hlegible, hresolved, hsuitable, hdocument, hsource⟩⟩
  refused := invalid_assemble
  resolved _ hs := ((assemble_eq_ok_iff hd).1 hs).2.1
  document _ hs := ((assemble_eq_ok_iff hd).1 hs).2.2.2.1
  alone := assemble_of_unset

/-- Settings are found where a document is read or none is to be had: they are refused as invalid
or resolved layer by layer. What cannot be read is no fault of a setting. -/
theorem load_layers (parser : Document.Parser) (tidies : parser.Tidies) (path : Text)
    (env : Environment) (files : Files) :
    (∀ d, documentAt parser files (chosenPath path env files) = .ok d →
      Layers (d.getD (.object [])) env (load parser path env files)) ∧
    ∀ e, documentAt parser files (chosenPath path env files) = .error e →
      load parser path env files = .error e ∧
        Unreadable parser (files (chosenPath path env files)) e := by
  constructor
  · intro d h
    obtain ⟨source, hload⟩ := load_of_documentAt h
    rw [hload]
    exact layers_assemble (tidy_documentAt tidies h) env source
  · intro e h
    exact ⟨by rw [load, h]; rfl, unreadable_of_documentAt h⟩

-- a file that gives a length and a name, and a variable that gives the name anew

def lengthAndName : Document :=
  .object [(ascii "counters", .object [(ascii "shm_name", .text (ascii "/x")),
    (ascii "values_buffer_length", .text (ascii "8k"))])]

def fileOfBoth : Files :=
  FileTree.read ⟨[], [([ascii "f"], .file (ascii
    "\x7b\"counters\":\x7b\"shm_name\":\"/x\",\"values_buffer_length\":\"8k\"\x7d\x7d"))]⟩

def nameAlone : Environment := [(ascii "TACHYON_COUNTERS_SHM_NAME", ascii "/y")]

theorem load_layers_overridden :
    Document.Parser.Tidies Document.parse ∧
      documentAt Document.parse fileOfBoth (chosenPath (ascii "f") nameAlone fileOfBoth) =
        .ok (some lengthAndName) ∧
      Layers lengthAndName nameAlone (load Document.parse (ascii "f") nameAlone fileOfBoth) ∧
      (load Document.parse (ascii "f") nameAlone fileOfBoth).map
        (fun s => (s.name, s.valuesLength)) = .ok (ascii "/y", 8192) := by
  have hpath : chosenPath (ascii "f") nameAlone fileOfBoth = ascii "f" := rfl
  have hread : documentAt Document.parse fileOfBoth (ascii "f") = .ok (some lengthAndName) := by
    cbv
  have hdocument : documentAt Document.parse fileOfBoth
      (chosenPath (ascii "f") nameAlone fileOfBoth) = .ok (some lengthAndName) := by
    rw [hpath, hread]
  have hlayers := (load_layers Document.parse Document.parse_tidies (ascii "f") nameAlone
    fileOfBoth).1 (some lengthAndName) hdocument
  refine ⟨Document.parse_tidies, hdocument, hlayers, ?_⟩
  rw [load, hdocument]
  rfl

/-- A directory, which can be opened but not read, is not taken for a file that is missing, nor is a
file with a number that is too large taken for one that is no document. -/
theorem load_unreadable :
    let files := FileTree.read ⟨[], [([ascii "f"], .file (ascii "1e400"))]⟩
    load Document.parse (ascii ".") [] files = .error (.fileNotRead .isDirectory) ∧
      load Document.parse (ascii "f") [] files = .error (.numberBeyond (ascii "1e400")) ∧
      (Fault.fileNotRead .isDirectory).kind ≠ .invalidArgument ∧
      (Fault.numberBeyond (ascii "1e400")).kind ≠ .invalidArgument :=
  ⟨by cbv, by cbv, by decide, by decide⟩

end Settings

end Telemetry
