import Holdfast.Deployment.Searching
import Holdfast.Proofs.Spans

namespace Holdfast.Deployment

open Failover Store

/-- What the work of a job leaves alone: the clock, the listeners, the routers, and the peers of a
sentinel. It uses pools, but neither opens nor closes any. -/
structure Works (d d' : Deployment) : Prop where
  now : d'.now = d.now
  monitors : d'.monitors = d.monitors
  routers : d'.routers = d.routers
  sentinel : ∀ {s}, d.directory = .sentinel s → d'.directory = .sentinel s
  pools : d.pools.Used d'.pools

namespace Works

theorem refl (d : Deployment) : Works d d := ⟨rfl, rfl, rfl, fun h => h, .refl _⟩

theorem trans {d₁ d₂ d₃ : Deployment} (h : Works d₁ d₂) (h' : Works d₂ d₃) : Works d₁ d₃ :=
  ⟨h'.now.trans h.now, h'.monitors.trans h.monitors, h'.routers.trans h.routers,
    fun hs => h'.sentinel (h.sentinel hs), h.pools.trans h'.pools⟩

/-- Stores, owners and tasks are not among what is left alone. -/
theorem of_used {d d' : Deployment} (hnow : d'.now = d.now) (hmonitors : d'.monitors = d.monitors)
    (hrouters : d'.routers = d.routers) (hdirectory : d'.directory = d.directory)
    (hpools : d.pools.Used d'.pools) : Works d d' :=
  ⟨hnow, hmonitors, hrouters, fun h => hdirectory.trans h, hpools⟩

end Works

theorem spans_works : Spans Works where
  refl := .refl
  trans := .trans
  stores _ _ := .of_used rfl rfl rfl rfl (.refl _)
  owner _ := .of_used rfl rfl rfl rfl (.refl _)
  pools hused := .of_used rfl rfl rfl rfl hused
  tasks _ _ := .of_used rfl rfl rfl rfl (.refl _)

/-- What the work of any caller leaves as it is or only adds to: it raises no flag, and draws owners
one after the other. -/
structure Onward (d d' : Deployment) : Prop where
  flags : d'.flags = d.flags
  owners : d.nextOwner ≤ d'.nextOwner

namespace Onward

theorem refl (d : Deployment) : Onward d d := ⟨rfl, Nat.le_refl _⟩

theorem trans {d₁ d₂ d₃ : Deployment} (h : Onward d₁ d₂) (h' : Onward d₂ d₃) : Onward d₁ d₃ :=
  ⟨h'.flags.trans h.flags, Nat.le_trans h.owners h'.owners⟩

theorem of_same {d d' : Deployment} (hflags : d'.flags = d.flags)
    (howners : d'.nextOwner = d.nextOwner) : Onward d d' :=
  ⟨hflags, Nat.le_of_eq howners.symm⟩

end Onward

theorem spans_onward : Spans Onward where
  refl := .refl
  trans := .trans
  stores _ _ := .of_same rfl rfl
  owner _ := ⟨rfl, Nat.le_succ _⟩
  pools _ := .of_same rfl rfl
  tasks _ _ := .of_same rfl rfl

theorem ask_works (d : Deployment) (b : Backend) (peer : Endpoint) (name : String) :
    Works d (d.ask b peer name).1 := by
  unfold ask
  split
  · exact .refl d
  · exact .refl d
  · next hscript =>
    refine ⟨rfl, rfl, rfl, ?_, .refl _⟩
    intro s hs
    rw [hscript] at hs
    cases hs

theorem stepSearch_works {d d' : Deployment} {b : Backend} {s s' : Search}
    (h : d.stepSearch b s = some (d', s')) : Works d d' := by
  unfold stepSearch at h
  split at h
  · cases h
  · split at h
    · cases h
      exact .refl d
    · cases h
  · split at h
    · cases h
      exact .refl d
    · cases h
      exact ask_works d _ _ _

end Holdfast.Deployment
