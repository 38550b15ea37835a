import Naos.Lib.Transition
import Mathlib

/-!
# Process groups and sessions

A process names its session and its group by number, and two maps of the kernel hold the
sessions and the groups with their members.  A group is named after the process it was made
for, and stays when that process moves to another group or is reaped.  Whoever then makes a
group of the same number in another session, by `setsid` or under the same pid, runs into the
assertion of `get_or_create_process_group_unlocked`.

No operation here attaches a terminal, which would keep a session without members.
-/

namespace Naos.JobControl

open Function Transition

/-- `process_group_t`.  A session is kept like a group of its own. -/
structure Group where
  session : ℕ
  members : Finset ℕ

/-- `global_process_group_map`, `global_session_map`. -/
abbrev Registry := ℕ → Option Group

/-- A process becomes a member of a group, which is made if it is not there. -/
def enter (r : Registry) (session id pid : ℕ) : Registry :=
  let g := (r id).getD ⟨session, ∅⟩
  update r id (some { g with members := insert pid g.members })

def leave (r : Registry) (id pid : ℕ) : Registry :=
  update r id (((r id).map fun g => { g with members := g.members.erase pid }).filter
    fun g => g.members ≠ ∅)

structure Process where
  parentPid : ℕ
  sessionId : ℕ
  processGroupId : ℕ
  live : Bool := true

structure State where
  processes : ℕ → Option Process := fun _ => none
  sessions : Registry := fun _ => none
  groups : Registry := fun _ => none

namespace State

variable (s : State)

/-- `register_process_job_control_unlocked`; `none` where the assertion of
`get_or_create_process_group_unlocked` fails. -/
def register (pid : ℕ) (p : Process) : Option State :=
  if ∀ g ∈ s.groups p.processGroupId, g.session = p.sessionId then some
    { processes := update s.processes pid (some p)
      sessions := enter s.sessions p.sessionId p.sessionId pid
      groups := enter s.groups p.sessionId p.processGroupId pid }
  else none

def unregister (pid : ℕ) (p : Process) : State :=
  { s with
    sessions := leave s.sessions p.sessionId pid
    groups := leave s.groups p.processGroupId pid }

def moveProcessSession (pid : ℕ) (p : Process) (sessionId processGroupId : ℕ) : Option State :=
  if p.sessionId = sessionId ∧ p.processGroupId = processGroupId then some s
  else (s.unregister pid p).register pid { p with sessionId, processGroupId }

def moveProcessGroup (pid : ℕ) (p : Process) (processGroupId : ℕ) : Option State :=
  if p.processGroupId = processGroupId then some s
  else
    let groups := leave s.groups p.processGroupId pid
    if ∀ g ∈ groups processGroupId, g.session = p.sessionId then some
      { s with
        processes := update s.processes pid (some { p with processGroupId })
        groups := enter groups p.sessionId processGroupId pid }
    else none

/-- `setpgid`, once the arguments that are 0 stand for the caller and for the process. -/
def setpgid (caller pid pgid : ℕ) : Option State :=
  match s.processes caller, s.processes pid with
  | some c, some target =>
    if target.live = false ∨ pid ≠ caller ∧ target.parentPid ≠ caller ∨
        target.sessionId ≠ c.sessionId ∨ pid = target.sessionId then some s
    else
      let found := (s.groups pgid).any fun g => g.session = target.sessionId ∧ g.members ≠ ∅
      if found = false ∧ pgid ≠ pid then some s else s.moveProcessGroup pid target pgid
  | _, _ => some s

end State

inductive Action where
  /-- `new_process` without a parent. -/
  | first (pid : ℕ)
  | create (pid parent : ℕ)
  | fork (pid parent : ℕ)
  /-- `exec` changes nothing here. -/
  | exec (pid : ℕ)
  | setpgid (caller pid pgid : ℕ)
  | setsid (pid : ℕ)
  | exit (pid : ℕ)
  | reap (pid : ℕ)

def step (s : State) : Action → Option State
  | .first pid => if (s.processes pid).isSome then some s else s.register pid ⟨0, pid, pid, true⟩
  | .create pid parent =>
    match s.processes pid, s.processes parent with
    | none, some ⟨_, sessionId, processGroupId, true⟩ =>
      let p : Process := ⟨parent, pid, pid, true⟩
      (s.register pid p).bind fun s => s.moveProcessSession pid p sessionId processGroupId
    | _, _ => some s
  | .fork pid parent =>
    match s.processes pid, s.processes parent with
    | none, some ⟨_, sessionId, processGroupId, true⟩ =>
      s.register pid ⟨parent, sessionId, processGroupId, true⟩
    | _, _ => some s
  | .exec _ => some s
  | .setpgid caller pid pgid =>
    let pid := if pid = 0 then caller else pid
    s.setpgid caller pid (if pgid = 0 then pid else pgid)
  | .setsid pid =>
    match s.processes pid with
    | some p =>
      if p.live = false ∨ p.processGroupId = pid then some s
      else s.moveProcessSession pid p pid pid
    | none => some s
  | .exit pid =>
    match s.processes pid with
    | some p =>
      if p.live = false then some s
      else some { s.unregister pid p with
        processes := update s.processes pid (some { p with live := false }) }
    | none => some s
  | .reap pid =>
    if (s.processes pid).any (·.live) then some s
    else some { s with processes := update s.processes pid none }

/-- The session and the group that a live process names; `id` picks the number. -/
def place (id : Process → ℕ) (processes : ℕ → Option Process) (pid : ℕ) : Option (ℕ × ℕ) :=
  (processes pid).bind fun p => if p.live then some (p.sessionId, id p) else none

/-- A registry lists every process where it says it is, and nowhere else, under the session
it says it is in, and holds nothing without members. -/
structure Exact (r : Registry) (place : ℕ → Option (ℕ × ℕ)) : Prop where
  member : ∀ id g pid, r id = some g → (pid ∈ g.members ↔ place pid = some (g.session, id))
  listed : ∀ pid session id, place pid = some (session, id) →
    (r id).map Group.session = some session
  inhabited : ∀ id g, r id = some g → g.members ≠ ∅

/-- **Every live process is a member of one group and one session, its group belongs to its
session, and groups and sessions exist while they have members.** -/
structure Orderly (s : State) : Prop where
  groups : Exact s.groups (place Process.processGroupId s.processes)
  sessions : Exact s.sessions (place Process.sessionId s.processes)

/-- A process that makes a group of its own number finds none of another session. -/
def Apart (s : State) : Action → Prop
  | .first pid | .create pid _ | .setsid pid => ∀ g ∈ s.groups pid, g.session = pid
  | .setpgid caller pid _ =>
    let pid := if pid = 0 then caller else pid
    ∀ p ∈ s.processes pid, ∀ g ∈ s.groups pid, g.session = p.sessionId
  | _ => True

instance (s : State) : DecidablePred (Apart s)
  | .first _ | .create _ _ | .setsid _ | .setpgid _ _ _ => by unfold Apart; infer_instance
  | .fork _ _ | .exec _ | .exit _ | .reap _ => .isTrue trivial

section

variable {r : Registry} {f : ℕ → Option (ℕ × ℕ)} {pid id session : ℕ}

namespace Exact

variable (h : Exact r f)
include h

lemma session_eq (hp : f pid = some (session, id)) : ∀ g ∈ r id, g.session = session := by
  intro g hg
  simpa [Option.mem_def.1 hg] using h.listed _ _ _ hp

lemma enter (hp : f pid = none) (hg : ∀ g ∈ r id, g.session = session) :
    Exact (enter r session id pid) (update f pid (some (session, id))) := by
  obtain ⟨hm, hl, hi⟩ := h
  constructor <;> simp only [JobControl.enter, update_apply] <;>
    cases hr : r id <;> simp only [Option.getD] <;> grind

lemma leave (hp : f pid = some (session, id)) : Exact (leave r id pid) (update f pid none) := by
  obtain ⟨g, hg, rfl⟩ := Option.map_eq_some_iff.1 (h.listed _ _ _ hp)
  obtain ⟨hm, hl, hi⟩ := h
  have hne x (hx : x ≠ pid) (hat : f x = some (g.session, id)) : g.members.erase pid ≠ ∅ :=
    Finset.ne_empty_of_mem (Finset.mem_erase.2 ⟨hx, (hm _ _ _ hg).2 hat⟩)
  constructor <;> simp only [JobControl.leave, update_apply, hg, Option.map_some,
    Option.filter_some] <;> grind

end Exact

end

variable {s : State} {p : Process} {pid : ℕ}

lemma place_update (id : Process → ℕ) (processes : ℕ → Option Process) (o : Option Process) :
    place id (update processes pid o) = update (place id processes) pid
      (o.bind fun p => if p.live then some (p.sessionId, id p) else none) := by
  funext x
  by_cases hx : x = pid
  · subst hx
    simp [place]
  · simp [place, hx]

lemma place_eq (id : Process → ℕ) (hp : s.processes pid = some p) (hl : p.live = true) :
    place id s.processes pid = some (p.sessionId, id p) := by
  simp [place, hp, hl]

/-- The registries are exact but for the process `pid`, which is in none of them. -/
structure Away (s : State) (pid : ℕ) : Prop where
  groups : Exact s.groups (update (place Process.processGroupId s.processes) pid none)
  sessions : Exact s.sessions (update (place Process.sessionId s.processes) pid none)

lemma Away.register (h : Away s pid) (p : Process) (hl : p.live = true)
    (hg : ∀ g ∈ s.groups p.processGroupId, g.session = p.sessionId) :
    ∃ t, s.register pid p = some t ∧ Orderly t ∧ t.processes = update s.processes pid (some p) := by
  have hs : ∀ g ∈ s.sessions p.sessionId, g.session = p.sessionId := by
    intro g hg
    obtain ⟨x, hx⟩ := Finset.nonempty_iff_ne_empty.2 (h.sessions.inhabited _ _ hg)
    have hat := (h.sessions.member _ _ _ hg).1 hx
    rw [update_apply, place] at hat
    cases hs : s.processes x <;> grind
  refine ⟨_, if_pos hg, ⟨?_, ?_⟩, rfl⟩
  · simpa [place_update, hl] using h.groups.enter (update_self ..) hg
  · simpa [place_update, hl] using h.sessions.enter (update_self ..) hs

namespace Orderly

variable (h : Orderly s)
include h

lemma away (pid : ℕ) (hp : place Process.sessionId s.processes pid = none) : Away s pid := by
  have hnone id : update (place id s.processes) pid none = place id s.processes := by
    cases hs : s.processes pid <;> simp_all [place, update_eq_self_iff]
  exact ⟨(hnone _).symm ▸ h.groups, (hnone _).symm ▸ h.sessions⟩

section

variable (hp : s.processes pid = some p) (hl : p.live = true)
include hp hl

lemma unregister : Away (s.unregister pid p) pid :=
  ⟨h.groups.leave (place_eq _ hp hl), h.sessions.leave (place_eq _ hp hl)⟩

lemma moveProcessSession {session id : ℕ}
    (hg : ∀ g ∈ (s.unregister pid p).groups id, g.session = session) :
    ∃ t, s.moveProcessSession pid p session id = some t ∧ Orderly t := by
  unfold State.moveProcessSession
  split_ifs
  · exact ⟨s, rfl, h⟩
  · obtain ⟨t, ht, hend, -⟩ := (h.unregister hp hl).register
      { p with sessionId := session, processGroupId := id } hl hg
    exact ⟨t, ht, hend⟩

lemma moveProcessGroup {id : ℕ} (hg : ∀ g ∈ s.groups id, g.session = p.sessionId) :
    ∃ t, s.moveProcessGroup pid p id = some t ∧ Orderly t := by
  by_cases hid : p.processGroupId = id
  · exact ⟨s, if_pos hid, h⟩
  · have hg' : ∀ g ∈ leave s.groups p.processGroupId pid id, g.session = p.sessionId := by
      simpa [leave, Ne.symm hid] using hg
    refine ⟨_, (if_neg hid).trans (if_pos hg'), ?_, ?_⟩
    · simpa [place_update, hl] using (h.groups.leave (place_eq _ hp hl)).enter (update_self ..) hg'
    · simpa [place_update, hl, ← place_eq Process.sessionId hp hl] using h.sessions

end

lemma setpgid {caller pgid : ℕ}
    (hg : ∀ p ∈ s.processes pid, ∀ g ∈ s.groups pid, g.session = p.sessionId) :
    ∃ t, s.setpgid caller pid pgid = some t ∧ Orderly t := by
  simp only [State.setpgid]
  split
  next c p hc hp =>
    split_ifs with hno hfound
    · exact ⟨s, rfl, h⟩
    · exact ⟨s, rfl, h⟩
    · refine h.moveProcessGroup hp (by simp_all) ?_
      intro g hin
      by_cases hid : pgid = pid
      · exact hg p hp g (hid ▸ hin)
      · simp_all
  next => exact ⟨s, rfl, h⟩

end Orderly

lemma Orderly.step {a : Action} (h : Orderly s) (hok : Apart s a) :
    ∃ t, step s a = some t ∧ Orderly t := by
  cases a with simp only [JobControl.step]
  | first pid =>
    split_ifs with hp
    · exact ⟨s, rfl, h⟩
    · obtain ⟨t, ht, hend, -⟩ := (h.away pid (by simp_all [place])).register
        ⟨0, pid, pid, true⟩ rfl hok
      exact ⟨t, ht, hend⟩
  | create pid parent =>
    split
    next session id hp hq =>
      let p : Process := ⟨parent, pid, pid, true⟩
      obtain ⟨t, ht, hend, hproc⟩ := (h.away pid (by simp [place, hp])).register p rfl hok
      have hself : t.processes pid = some p := by simp [hproc]
      have hne : parent ≠ pid := by
        rintro rfl
        simp [hp] at hq
      have hin : update (place Process.processGroupId t.processes) pid none parent
          = some (session, id) := by simp [hproc, hne, place, hq]
      rw [ht]
      exact hend.moveProcessSession hself rfl ((hend.unregister hself rfl).groups.session_eq hin)
    next => exact ⟨s, rfl, h⟩
  | fork pid parent =>
    split
    next session id hp hq =>
      have hin := h.groups.session_eq (place_eq _ hq rfl)
      obtain ⟨t, ht, hend, -⟩ := (h.away pid (by simp [place, hp])).register
        ⟨parent, session, id, true⟩ rfl hin
      exact ⟨t, ht, hend⟩
    next => exact ⟨s, rfl, h⟩
  | exec => exact ⟨s, rfl, h⟩
  | setpgid caller pid pgid => exact h.setpgid hok
  | setsid pid =>
    split
    next p hp =>
      split_ifs with hno
      · exact ⟨s, rfl, h⟩
      · rw [not_or, Bool.not_eq_false] at hno
        refine h.moveProcessSession hp hno.1 ?_
        simpa [State.unregister, leave, Ne.symm hno.2, Apart] using hok
    next => exact ⟨s, rfl, h⟩
  | exit pid =>
    split
    next p hp =>
      split_ifs with hl
      · exact ⟨s, rfl, h⟩
      · have hout := h.unregister hp (by simpa using hl)
        exact ⟨_, rfl, by simpa [place_update, State.unregister] using hout.groups,
          by simpa [place_update, State.unregister] using hout.sessions⟩
    next => exact ⟨s, rfl, h⟩
  | reap pid =>
    split_ifs with hl
    · exact ⟨s, rfl, h⟩
    · have hout : Away s pid := h.away _ (by cases hp : s.processes pid <;> simp_all [place])
      exact ⟨_, rfl, by simpa [place_update] using hout.groups,
        by simpa [place_update] using hout.sessions⟩

/-- **Every process is in one group and every group in one session**, and both are gone with their
last member, in every run in which a process only makes a group or session whose number is free. -/
theorem orderly_of_apart (as : List Action) (hok : Along step Apart {} as) :
    ∃ s, exec step {} as = some s ∧ Orderly s := by
  refine exec_exists (fun s a h hok => h.step hok) ?_ hok
  constructor <;> constructor <;> simp [place]

/-- Process 2 leaves process 3 in the group it made, and starts a session: after
process 3 is gone, or while it is there. -/
def newSession (gone : List Action) : List Action :=
  [.first 0, .create 1 0, .setsid 1, .fork 2 1, .fork 3 2, .setpgid 2 0 0, .setpgid 2 3 2,
    .setpgid 2 0 1] ++ gone ++ [.setsid 2]

theorem orderly_of_apart_newSession : Along step Apart {} (newSession [.exit 3, .reap 3]) ∧
    ∃ s, exec step {} (newSession [.exit 3, .reap 3]) = some s ∧ Orderly s := by
  have hok : Along step Apart {} (newSession [.exit 3, .reap 3]) := by decide +kernel
  exact ⟨hok, orderly_of_apart _ hok⟩

/-- The group 2 of session 1 is there when process 2 makes the group 2 of session 2. -/
theorem not_orderly_newSession : exec step {} (newSession []) = none := by
  rw [← Option.isNone_iff_eq_none]
  decide +kernel

end Naos.JobControl
