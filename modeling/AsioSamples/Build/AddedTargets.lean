import AsioSamples.Build.ImportRuns

/-!
# What the import macro adds

Wherever the regular expressions lead, the macro changes the targets in one way: it adds some,
each under a name that CMake allows and that no target has.
-/

namespace AsioSamples.AutoImportLibs

open Framework Framework.CMake Framework.SeparatedList

variable {H : Host} {R : Substitution} {site : CallSite H} {directory : Value} {s t u : State}

/-- From `s` to `t` only targets were added, under names that were free. -/
def Adds (H : Host) (s t : State) : Prop :=
  ∃ ns, t.targets.names = s.targets.names ++ ns ∧ ∀ n ∈ ns, Free H s.targets n

theorem Adds.trans (h : Adds H s t) (h' : Adds H t u) : Adds H s u := by
  obtain ⟨ns, hns, hfree⟩ := h
  obtain ⟨ms, hms, hfree'⟩ := h'
  refine ⟨ns ++ ms, by rw [hms, hns, List.append_assoc], fun n hn => ?_⟩
  rcases List.mem_append.mp hn with hn | hn
  · exact hfree n hn
  · refine ⟨(hfree' n hn).1, fun hin => (hfree' n hn).2 ?_⟩
    rw [hns]
    exact List.mem_append_left _ hin

/-- Where the command ends, it has only added targets. -/
def OnlyAdds {α : Type} (H : Host) (h : Handler State Failure α) : Prop :=
  ∀ s a t, h s = (.ok a, t) → Adds H s t

variable {α β : Type}

theorem OnlyAdds.bind {h : Handler State Failure α} {k : α → Handler State Failure β}
    (hh : OnlyAdds H h) (hk : ∀ a, OnlyAdds H (k a)) : OnlyAdds H (h >>= k) := by
  intro s b t hb
  obtain ⟨a, u, hu, ht⟩ := Handler.bind_run_eq_ok hb
  exact (hh s a u hu).trans (hk a u b t ht)

end AsioSamples.AutoImportLibs
