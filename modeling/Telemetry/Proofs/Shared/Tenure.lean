import Telemetry.Proofs.Shared.Agreement
import Telemetry.Proofs.Shared.Lifecycle

namespace Telemetry.Shared

open Buffer

namespace Board

variable {s : Namespace} {whole : View} {metadataLength valuesLength : Nat} {m m' : Memory}
  {y : Board} {name : Text}

/-- A board without open handles whose header, if it is the owner, says what follows it. -/
structure Ready (y : Board) (m : Memory) : Prop where
  idle : y.session.handles = []
  stamped : y.buffer.owner = true → ∃ p length, y.buffer.mapping = some p ∧
    Fits p.view (4 * length) length ∧ Stamped p.view (4 * length) length m

theorem initialise_within (whole : View) (host : Host) (metadataLength valuesLength : Nat)
    (charset : Counters.Charset) (clock : Option Counters.Clock) (timeout : Int) :
    (initialise whole host metadataLength valuesLength charset clock timeout).Within whole := by
  by_cases hroom : headerLength ≤ whole.capacity
  · have hinside : (headerOf whole).Inside whole := View.slice_inside (by omega)
    exact (initialise_within_header hroom host metadataLength valuesLength charset clock
      timeout).mono hinside
  · unfold initialise
    rw [View.sub_of_lt (by omega)]
    exact Action.within_error_bind _ _

theorem slots_le_of_sections {views : View × View}
    (h : sections whole metadataLength valuesLength = .ok views) :
    valuesLength ≤ whole.capacity := by
  apply Nat.le_of_not_lt
  intro hlt
  have hlong : whole.capacity < Word.offset (headerLength + metadataLength) + valuesLength :=
    Nat.lt_of_lt_of_le hlt (Nat.le_add_left ..)
  unfold sections at h
  rw [View.sub_of_lt hlong] at h
  cases hrecords : whole.sub headerLength metadataLength with
  | error e =>
    rw [hrecords] at h
    cases h
  | ok v =>
    rw [hrecords] at h
    cases h

theorem sections_of_initialise {host : Host} {charset : Counters.Charset}
    {clock : Option Counters.Clock} {timeout : Int} {r : Counters.Registry}
    (h : (initialise whole host metadataLength valuesLength charset clock timeout).run m =
      (m', .ok r)) : ∃ views, sections whole metadataLength valuesLength = .ok views := by
  unfold initialise at h
  obtain ⟨_, _, -, h⟩ := Action.run_bind_eq_ok h
  obtain ⟨_, _, -, h⟩ := Action.run_bind_eq_ok h
  obtain ⟨_, _, -, h⟩ := Action.run_bind_eq_ok h
  obtain ⟨_, _, -, h⟩ := Action.run_bind_eq_ok h
  obtain ⟨_, _, -, h⟩ := Action.run_bind_eq_ok h
  obtain ⟨_, _, -, h⟩ := Action.run_bind_eq_ok h
  obtain ⟨views, _, hsections, -⟩ := Action.run_bind_eq_ok h
  exact ⟨views, (Prod.mk.inj hsections).2⟩

theorem stamped_of_initialise {host : Host} {charset : Counters.Charset}
    {clock : Option Counters.Clock} {timeout : Int} {r : Counters.Registry}
    (hmetadata : metadataLength = Word.offset (valuesLength * 4))
    (hcapacity : whole.capacity = segmentLength metadataLength valuesLength)
    (hgap : whole.capacity < 0x2000000000000000)
    (h : (initialise whole host metadataLength valuesLength charset clock timeout).run m =
      (m', .ok r)) :
    Fits whole (4 * valuesLength) valuesLength ∧ Stamped whole (4 * valuesLength) valuesLength m' := by
  obtain ⟨views, hsections⟩ := sections_of_initialise h
  have hslots := slots_le_of_sections hsections
  have hunwrapped : metadataLength = 4 * valuesLength := by
    simp only [hmetadata, Word.offset]
    omega
  subst hunwrapped
  have hfits : Fits whole (4 * valuesLength) valuesLength := by
    simp only [segmentLength, Word.offset, headerLength] at hcapacity
    refine ⟨?_, ?_⟩
    · simp only [headerLength]
      omega
    · omega
  refine ⟨hfits, ?_⟩
  cases hregistry : Counters.Registry.create ⟨recordsOf whole (4 * valuesLength),
      slotsOf whole (4 * valuesLength) valuesLength, charset⟩ clock.isSome timeout with
  | error e =>
    have herror := initialise_error hfits host charset clock timeout m hregistry
    rw [h] at herror
    cases herror
  | ok r' =>
    obtain ⟨m'', hrun, hstamped⟩ := initialise_ok hfits host charset clock timeout m hregistry
    rw [h] at hrun
    cases hrun
    exact hstamped

variable [Platform]

/-- A creation writes into a segment that nobody had before, and a board that it makes is ready. -/
theorem create_ready (s : Namespace) (host : Host) (name : Text) (valuesLength : Nat)
    (charset : Counters.Charset) (clock : Option Counters.Clock) (timeout : Int) (m : Memory) :
    let g := create s host name valuesLength charset clock timeout m
    (∃ v : View, v.region = s.sizes.length ∧ ∀ w ∈ g.writes, v.Covers w) ∧
      ∀ y, g.result = .ok y → y.Ready (m.storeAll g.writes) := by
  have hnowhere : ∃ v : View, v.region = s.sizes.length ∧ ∀ w ∈ ([] : List Write), v.Covers w :=
    ⟨⟨s.sizes.length, 0, 0⟩, rfl, nofun⟩
  unfold create
  split
  · exact ⟨hnowhere, nofun⟩
  · dsimp only
    split
    · exact ⟨hnowhere, nofun⟩
    · next s' x hcreate =>
      obtain ⟨-, hgap, rfl, -⟩ := create_eq_ok (congrArg Prod.snd hcreate)
      have hwithin (metadataLength : Nat) (v : View) := initialise_within v host metadataLength
        valuesLength charset clock timeout m
      split
      · exact ⟨⟨_, rfl, hwithin _ _⟩, nofun⟩
      · next r hr =>
        refine ⟨⟨_, rfl, hwithin _ _⟩, fun y hy => ?_⟩
        cases hy
        exact ⟨rfl, fun _ => ⟨_, valuesLength, rfl,
          stamped_of_initialise rfl rfl hgap (Prod.ext rfl hr)⟩⟩

end Board

namespace World

variable {w : World} {m : Memory} {host : Host} {c : Command} {b : Nat}

/-- What a command does to the memory and the boards of a world: it writes into a segment that
nobody had before, and every board was there or is ready. -/
structure Steady (w : World) (m : Memory) (e : Effect) : Prop where
  uncut : e.cuts = []
  fresh : ∃ v : View, v.region = w.space.sizes.length ∧ ∀ x ∈ e.writes, v.Covers x
  boards : ∀ z ∈ e.world.boards, z.2 ∈ w.boards.map Prod.snd ∨ z.2.Ready (e.memory m)

theorem steady_of_subset {e : Effect} (hcuts : e.cuts = []) (hwrites : e.writes = [])
    (hboards : ∀ z ∈ e.world.boards, z.2 ∈ w.boards.map Prod.snd) : w.Steady m e := by
  refine ⟨hcuts, ⟨⟨w.space.sizes.length, 0, 0⟩, rfl, ?_⟩, fun z hz => .inl (hboards z hz)⟩
  rw [hwrites]
  nofun

theorem steady_same {e : Effect} (hcuts : e.cuts = []) (hwrites : e.writes = [])
    (hboards : e.world.boards = w.boards) : w.Steady m e :=
  steady_of_subset hcuts hwrites fun _ hz => List.mem_map_of_mem (hboards ▸ hz)

theorem finish_of_idle {y : Counters.Session} (h : y.handles = []) (wallTime : Int) (m : Memory) :
    y.finish wallTime m = [] := by
  rw [Counters.Session.finish, h]
  rfl

/-- All that is kept by the commands of a lifecycle: numbers and segments are used once, and boards
are ready. -/
structure Sound (w : World) (m : Memory) : Prop where
  distinct : w.Distinct
  apart : Buffer.Apart w.owners w.space
  ready : ∀ z ∈ w.boards, z.2.Ready m

theorem sound_empty (m : Memory) : empty.Sound m where
  distinct := ⟨.nil, .nil⟩
  apart := ⟨.nil, nofun, nofun⟩
  ready := nofun

theorem mem_owners_of_board {z : Nat × Board} (hz : z ∈ w.boards)
    (howner : z.2.buffer.owner = true) : z.2.buffer ∈ w.owners := by
  refine List.mem_append_right _ (List.mem_filter.2 ⟨?_, howner⟩)
  exact List.mem_map.2 ⟨z, hz, rfl⟩

section Kept

variable [Platform]

theorem boards_dropBuffer (w : World) (b : Nat) : (w.dropBuffer b).boards = w.boards := by
  unfold dropBuffer
  split <;> rfl

variable (hready : ∀ z ∈ w.boards, z.2.Ready m)
include hready

theorem dropBoard_quiet (host : Host) (m' : Memory) (b : Nat) :
    (w.dropBoard host m' b).2 = [] ∧ ∀ z ∈ (w.dropBoard host m' b).1.boards, z ∈ w.boards := by
  cases hy : Shelf.get? w.boards b with
  | none =>
    rw [dropBoard_of_none hy]
    exact ⟨rfl, fun _ hz => hz⟩
  | some y =>
    rw [dropBoard_of_some hy]
    refine ⟨?_, fun z hz => Shelf.mem_of_mem_remove hz⟩
    have hidle := (hready _ (Shelf.mem_of_get? hy)).idle
    exact finish_of_idle hidle host.wallTime m'

theorem placeBoard_steady {g : Board.Creation}
    (hfresh : ∃ v : View, v.region = w.space.sizes.length ∧ ∀ x ∈ g.writes, v.Covers x)
    (hmade : ∀ y, g.result = .ok y → y.Ready (m.storeAll g.writes)) (host : Host) (b : Nat) :
    w.Steady m (w.placeBoard host m b g) := by
  cases hresult : g.result with
  | error e =>
    simp only [placeBoard, hresult]
    exact ⟨rfl, hfresh, fun z hz => .inl (List.mem_map_of_mem hz)⟩
  | ok y =>
    obtain ⟨hwrites, hboards⟩ := dropBoard_quiet (w := { w with space := g.space }) hready host
      (m.storeAll g.writes) b
    simp only [placeBoard, hresult, hwrites, List.append_nil]
    refine ⟨rfl, hfresh, fun z hz => ?_⟩
    rcases List.mem_cons.1 hz with rfl | hz
    · exact .inr (hmade y hresult)
    · exact .inl (List.mem_map_of_mem (hboards z (Shelf.mem_of_mem_remove hz)))

theorem step_steady (hc : c.Lifecycle) (host : Host) : w.Steady m (w.step host m c) := by
  have hrefused (e : Fault) : w.Steady m (w.refuse e) := steady_same rfl rfl rfl
  cases c with
  | create | attach | close | unlink | access | accessBuffer | call => exact hc.elim
  | createBuffer b name length =>
    simp only [step]
    split
    · exact steady_same rfl rfl (boards_dropBuffer _ b)
    · exact steady_same rfl rfl rfl
  | attachBuffer b name =>
    simp only [step]
    split
    · exact steady_same rfl rfl (boards_dropBuffer w b)
    · exact hrefused _
  | moveBuffer b target =>
    simp only [step]
    split
    · exact steady_same rfl rfl (boards_dropBuffer w target)
    · exact steady_same rfl rfl (boards_dropBuffer w target)
  | assignBuffer b target =>
    simp only [step]
    split
    · split <;> exact steady_same rfl rfl rfl
    · exact hrefused _
  | dropBuffer b => exact steady_same rfl rfl (boards_dropBuffer w b)
  | bufferState b =>
    simp only [step]
    split
    · exact steady_same rfl rfl rfl
    · exact hrefused _
  | createBoard b name valuesLength charset clock timeout =>
    obtain ⟨hfresh, hmade⟩ :=
      Board.create_ready w.space host name valuesLength charset clock timeout m
    exact placeBoard_steady hready hfresh hmade host b
  | configureBoard b d =>
    simp only [step]
    split
    · exact hrefused _
    · next settings _ =>
      obtain ⟨hfresh, hmade⟩ := Board.create_ready w.space host settings.name
        settings.valuesLength.toNat (Board.charsetOf settings) (some .wall)
        settings.timeoutMilliseconds m
      exact placeBoard_steady hready hfresh hmade host b
  | attachBoard b name =>
    refine placeBoard_steady hready ⟨⟨w.space.sizes.length, 0, 0⟩, rfl, ?_⟩ (fun y hy => ?_) host b
    · intro x hx
      cases hx
    · obtain ⟨howner, hidle⟩ := attachBoard_plain hy
      refine ⟨hidle, fun h => ?_⟩
      rw [howner] at h
      cases h
  | moveBoard b target =>
    simp only [step]
    split
    · exact hrefused _
    · next y hy =>
      split
      · exact steady_same rfl rfl rfl
      · obtain ⟨hwrites, hboards⟩ := dropBoard_quiet hready host m target
        refine steady_of_subset rfl hwrites fun z hz => ?_
        rcases List.mem_cons.1 hz with rfl | hz
        · exact List.mem_map.2 ⟨_, Shelf.mem_of_get? hy, rfl⟩
        · have hz' := Shelf.mem_of_mem_remove (Shelf.mem_of_mem_remove hz)
          exact List.mem_map_of_mem (hboards z hz')
  | dropBoard b =>
    obtain ⟨hwrites, hboards⟩ := dropBoard_quiet hready host m b
    exact steady_of_subset rfl hwrites fun z hz => List.mem_map_of_mem (hboards z hz)
  | boardCapacity b =>
    simp only [step]
    split
    · exact hrefused _
    · exact steady_same rfl rfl rfl
  | boardState b =>
    simp only [step]
    split
    · exact hrefused _
    · exact steady_same rfl rfl rfl

omit hready

theorem Sound.step (h : w.Sound m) (hc : c.Lifecycle) (host : Host) :
    (w.step host m c).world.Sound ((w.step host m c).memory m) := by
  obtain ⟨s, made, hbegins, hdistinct, ended, hperm, hspace⟩ := step_turns h.distinct hc host m
  obtain ⟨huncut, ⟨v, hregion, hcovers⟩, hboards⟩ := step_steady h.ready hc host
  refine ⟨hdistinct, ?_, fun z hz => ?_⟩
  · rw [hspace]
    exact (hbegins.apart h.apart).endAll hperm
  · refine (hboards z hz).elim (fun hold => ?_) id
    obtain ⟨z', hz', hboard⟩ := List.mem_map.1 hold
    obtain ⟨hidle, hstamped⟩ := hboard ▸ h.ready z' hz'
    refine ⟨hidle, fun howner => ?_⟩
    obtain ⟨p, length, hmapping, hfits, hheader⟩ := hstamped howner
    refine ⟨p, length, hmapping, hfits, hheader.congr ?_⟩
    -- what is written lies in a segment of its own
    have hlt : p.region < w.space.sizes.length := by
      obtain ⟨q, hq, hlt⟩ := h.apart.placed _ (mem_owners_of_board hz' (hboard ▸ howner))
      rw [hboard, hmapping] at hq
      cases hq
      exact hlt
    rw [Effect.memory, huncut]
    apply View.bytes_storeAll hcovers
    refine .inl ?_
    rw [hregion]
    exact Nat.ne_of_gt hlt

theorem Sound.run (h : w.Sound m) {cs : List Command} (hcs : ∀ c ∈ cs, c.Lifecycle)
    (host : Host) : (w.run host m cs).1.Sound (w.run host m cs).2 := by
  induction cs generalizing w m with
  | nil => exact h
  | cons c rest ih =>
    exact ih (h.step (hcs c List.mem_cons_self) host) fun c hc => hcs c (List.mem_cons_of_mem _ hc)

variable {bearer : Buffer → Prop} {n : Text} {p : Mapping}

theorem Sound.leads_step (h : w.Sound m) (hc : c.Lifecycle)
    (hleads : Leads bearer n p w.owners w.space)
    (hother : ∀ name, c.creates? = some name → segmentName name ≠ .ok n) (host : Host) :
    Leads bearer n p (w.step host m c).world.owners (w.step host m c).world.space := by
  obtain ⟨s, made, hbegins, -, ended, hperm, hspace⟩ := step_turns h.distinct hc host m
  rw [hspace]
  exact (hbegins.leads hleads hother).endAll (hbegins.apart h.apart) hperm

theorem Sound.leads_run (h : w.Sound m) {cs : List Command} (hcs : ∀ c ∈ cs, c.Lifecycle)
    (hleads : Leads bearer n p w.owners w.space)
    (hother : ∀ c ∈ cs, ∀ name, c.creates? = some name → segmentName name ≠ .ok n)
    (host : Host) :
    Leads bearer n p (w.run host m cs).1.owners (w.run host m cs).1.space := by
  induction cs generalizing w m with
  | nil => exact hleads
  | cons c rest ih =>
    have hc := hcs c List.mem_cons_self
    have hlater : ∀ c ∈ rest, c.Lifecycle := fun c hc => hcs c (List.mem_cons_of_mem _ hc)
    apply ih (h.step hc host) hlater
    · exact h.leads_step hc hleads (hother c List.mem_cons_self) host
    · exact fun c hc => hother c (List.mem_cons_of_mem _ hc)

/-- An owner that a command makes is reached by its name, unless the command ended an older one. -/
theorem Sound.leads_new (h : w.Sound m) (hc : c.Lifecycle) (host : Host) {x : Buffer}
    (hnew : x ∈ (w.step host m c).world.owners) (hold : x ∉ w.owners) :
    ∃ n p, x.mapping = some p ∧ x.Bears n ∧
      Leads (fun y => y = x ∨ y ∈ w.owners ∧ y.Bears n) n p (w.step host m c).world.owners
        (w.step host m c).world.space := by
  obtain ⟨s, made, hbegins, -, ended, hperm, hspace⟩ := step_turns h.distinct hc host m
  have hapart := hbegins.apart h.apart
  have hmade : x ∈ made := by
    have hmem := hperm.subset (List.mem_append_right ended hnew)
    exact (List.mem_append.1 hmem).resolve_right hold
  rw [hspace]
  cases hbegins with
  | nothing => nomatch hmade
  | refused => nomatch hmade
  | @made name length _ _ hname hcreate =>
    cases List.mem_singleton.1 hmade
    obtain ⟨hx, hattach⟩ := create_owner hcreate
    obtain ⟨n, hcanonical, hfind, hsize, hpos⟩ := Namespace.attach_eq_ok hattach
    have hbears : x.Bears n := by
      rw [hx]
      exact hcanonical
    have hleads : Leads (fun y => y = x ∨ y ∈ w.owners ∧ y.Bears n) n ⟨w.space.sizes.length, length⟩
        ([x] ++ w.owners) s := by
      refine ⟨fun b hb hn => ?_, fun b hb => ?_, fun _ => hfind, fun b hb hgone => ?_, hsize, hpos⟩
      · exact (List.mem_cons.1 hb).imp_right fun hb => ⟨hb, hn⟩
      · rcases hb with rfl | ⟨-, hb⟩
        · exact hbears
        · exact hb
      · exact absurd (List.mem_cons.2 (hb.imp_right And.left)) hgone
    exact ⟨n, _, hx ▸ rfl, hbears, hleads.endAll hapart hperm⟩

/-- An owner and all older owners of its name are still there. -/
def Undisturbed (x : Buffer) (older later : World) : Prop :=
  x ∈ later.owners ∧ ∀ y ∈ older.owners,
    segmentName y.name = segmentName x.name → y ∈ later.owners

/-- Whatever was done before: from when a command makes an owner until its name is created anew,
its name leads to it as long as neither the owner nor an older owner of that name has ended, and
nowhere from then on. If the owner is a board, who attaches finds a board. -/
theorem run_tenure (host : Host) {m m₁ m₂ : Memory} {w₁ w₂ : World} {before after : List Command}
    {c : Command} {x : Buffer} (hbefore : ∀ c ∈ before, c.Lifecycle) (hc : c.Lifecycle)
    (hafter : ∀ c ∈ after, c.Lifecycle) (hrun : empty.run host m before = (w₁, m₁))
    (hnew : x ∈ (w₁.step host m₁ c).world.owners) (hold : x ∉ w₁.owners)
    (hother : ∀ c ∈ after, ∀ name, c.creates? = some name →
      segmentName name ≠ segmentName x.name)
    (hrest : (w₁.step host m₁ c).world.run host ((w₁.step host m₁ c).memory m₁) after =
      (w₂, m₂)) :
    ∃ p, x.mapping = some p ∧
      ∀ name, segmentName name = segmentName x.name →
        (Undisturbed x w₁ w₂ → Buffer.attach w₂.space name = .ok ⟨name, some p, false⟩ ∧
          ∀ z ∈ w₂.boards, z.2.buffer = x →
            ∃ y, Board.attach w₂.space name m₂ = .ok y ∧ y.buffer.mapping = some p) ∧
        (¬ Undisturbed x w₁ w₂ →
          Buffer.attach w₂.space name = .error (.segmentNotAttached name .noEntry)) := by
  have hsound₁ := (sound_empty m).run hbefore host
  rw [hrun] at hsound₁
  obtain ⟨n, p, hp, hbears, hleads⟩ := hsound₁.leads_new hc host hnew hold
  have hsound := (hsound₁.step hc host).run hafter host
  have hlater := (hsound₁.step hc host).leads_run hafter hleads
    (fun c hc name hname => hbears ▸ hother c hc name hname) host
  rw [hrest] at hsound hlater
  refine ⟨p, hp, fun name hname => ⟨fun hundisturbed => ?_, fun hdisturbed => ?_⟩⟩
  · obtain ⟨hx, hothers⟩ := hundisturbed
    have hattach : w₂.space.attach name = .ok p := by
      apply hlater.attach_eq (hname.trans hbears)
      rintro b (rfl | ⟨hb, hn⟩)
      · exact hx
      · exact hothers b hb (hn.trans hbears.symm)
    refine ⟨Buffer.attach_of_namespace hattach, fun z hz hboard => ?_⟩
    have howner : z.2.buffer.owner = true := by
      rw [hboard]
      exact hsound.apart.owner x hx
    obtain ⟨q, length, hq, hfits, hstamped⟩ := (hsound.ready z hz).stamped howner
    rw [hboard, hp] at hq
    cases hq
    exact ⟨_, Board.attach_of_stamped hattach hfits hstamped, rfl⟩
  · have hgone : ∃ b, (b = x ∨ b ∈ w₁.owners ∧ b.Bears n) ∧ b ∉ w₂.owners := by
      apply Classical.byContradiction
      intro hnone
      apply hdisturbed
      have hall (b : Buffer) (hb : b = x ∨ b ∈ w₁.owners ∧ b.Bears n) : b ∈ w₂.owners :=
        Classical.byContradiction fun hnot => hnone ⟨b, hb, hnot⟩
      exact ⟨hall x (.inl rfl), fun y hy hyx => hall y (.inr ⟨hy, hyx.trans hbears⟩)⟩
    obtain ⟨b, hb, hnot⟩ := hgone
    have hattach := hlater.attach_lost (hname.trans hbears) hb hnot
    unfold Buffer.attach
    rw [hattach]

end Kept

open scoped Platform

def anyHost : Host := ⟨1, 0, fun _ => true⟩

/-- A board that took the name of a buffer over, while another name comes and goes. -/
theorem run_tenure_board :
    let before := [Command.createBuffer 0 [115] 64]
    let c := Command.createBoard 0 [47, 115] 128 .utf8 (some (.manual 5)) 0
    let after := [Command.attachBoard 1 [115], .createBuffer 2 [116] 64, .moveBoard 0 3,
      .dropBuffer 2]
    let x : Buffer := ⟨[47, 115], some ⟨1, 768⟩, true⟩
    let first := empty.run anyHost .zero before
    let made := first.1.step anyHost first.2 c
    let last := made.world.run anyHost (made.memory first.2) after
    (∀ c ∈ before, c.Lifecycle) ∧ c.Lifecycle ∧ (∀ c ∈ after, c.Lifecycle) ∧
      x ∈ made.world.owners ∧ x ∉ first.1.owners ∧
      (∀ c ∈ after, ∀ name, c.creates? = some name →
        segmentName name ≠ segmentName x.name) ∧
      Undisturbed x first.1 last.1 ∧
      Buffer.attach last.1.space [115] = .ok ⟨[115], some ⟨1, 768⟩, false⟩ ∧
      ∃ y, Board.attach last.1.space [115] last.2 = .ok y ∧
        y.buffer.mapping = some ⟨1, 768⟩ := by
  intro before c after x first made last
  have heta (q : World × Memory) : q = (q.1, q.2) := rfl
  have hbefore : ∀ c ∈ before, c.Lifecycle := by simp [before, Command.Lifecycle]
  have hc : c.Lifecycle := trivial
  have hafter : ∀ c ∈ after, c.Lifecycle := by simp [after, Command.Lifecycle]
  have hnew : x ∈ made.world.owners := by decide +kernel
  have hold : x ∉ first.1.owners := by decide +kernel
  have hother : ∀ c ∈ after, ∀ name, c.creates? = some name →
      segmentName name ≠ segmentName x.name := by
    intro c hc name hname
    simp only [after, List.mem_cons, List.not_mem_nil, or_false] at hc
    rcases hc with rfl | rfl | rfl | rfl
    · nomatch hname
    · cases hname
      intro heq
      have hnames : (.ok [116] : Except OsError Text) = .ok [115] := heq
      nomatch Except.ok.inj hnames
    · nomatch hname
    · nomatch hname
  have hundisturbed : Undisturbed x first.1 last.1 := by
    have howners : first.1.owners = [⟨[115], some ⟨0, 64⟩, true⟩] := by decide +kernel
    refine ⟨by decide +kernel, fun y hy _ => ?_⟩
    rw [howners] at hy
    cases List.mem_singleton.1 hy
    decide +kernel
  have hthere : ∃ z ∈ last.1.boards, z.2.buffer = x := by
    have hany : (last.1.boards.any fun z => z.2.buffer == x) = true := by decide +kernel
    obtain ⟨z, hz, hbuffer⟩ := List.any_eq_true.1 hany
    exact ⟨z, hz, eq_of_beq hbuffer⟩
  obtain ⟨p, hp, hreached⟩ :=
    run_tenure anyHost hbefore hc hafter (heta first) hnew hold hother (heta last)
  cases hp
  obtain ⟨hattach, hboard⟩ := (hreached [115] rfl).1 hundisturbed
  obtain ⟨z, hz, hbuffer⟩ := hthere
  exact ⟨hbefore, hc, hafter, hnew, hold, hother, hundisturbed, hattach, hboard z hz hbuffer⟩

/-- An owner that is still there but that nobody reaches: an older owner of its name was dropped, or
was replaced by it under the same number. -/
theorem run_out_of_reach :
    let x : Buffer := ⟨[115], some ⟨1, 128⟩, true⟩
    (∃ w m, empty.run anyHost .zero
        [.createBuffer 0 [115] 64, .createBuffer 1 [115] 128, .dropBuffer 0] = (w, m) ∧
      x ∈ w.owners ∧ Buffer.attach w.space [115] = .error (.segmentNotAttached [115] .noEntry)) ∧
    ∃ w m, empty.run anyHost .zero
        [.createBuffer 0 [115] 64, .createBuffer 0 [115] 128] = (w, m) ∧
      x ∈ w.owners ∧ Buffer.attach w.space [115] = .error (.segmentNotAttached [115] .noEntry) :=
  ⟨⟨_, _, rfl, by decide, rfl⟩, ⟨_, _, rfl, by decide, rfl⟩⟩

end World

end Telemetry.Shared
