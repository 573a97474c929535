import ArenaHash.Proofs.System.Load
import ArenaHash.Proofs.System.Renewal

/-!
# Growth settles in a system

The load factor of every container is finite and positive, whatever was done to it. So a container
that made room for one more entry has none due, and asks for no second array before the entry is
added, however often that fails.
-/

namespace ArenaHash

/-- The load factor that a table is built with. -/
theorem Table.Shape.isPositive_growth (s : Table.Shape) :
    s.growth.maxLoad.isPositive = true := by
  unfold growth Growth.fixed Growth.new
  split
  · rw [if_pos Growth.isPositive_defaultLoad]
    exact Growth.isPositive_defaultLoad
  · rw [if_pos Growth.isPositive_fixedLoad]
    exact Growth.isPositive_fixedLoad

theorem Table.Shape.Accepts.isPositive {s : Table.Shape} {maxLoad : Binary32}
    (h : s.Accepts maxLoad) : maxLoad.isPositive = true := by
  rcases h with rfl | ⟨-, hpositive⟩
  · exact s.isPositive_growth
  · exact hpositive

variable {A : Type} [Allocator A]

/-- Room that was made is enough. -/
theorem Table.Room.due?_eq_none {s : Table.Shape} {T : Type} {t room : Table s T A}
    {hasher : Ref → T → UInt64} {heap later : Heap A}
    (hload : t.growth.maxLoad.isPositive = true)
    (h : Room t hasher heap (.ok (), room, later)) : room.due? = none := by
  cases h with
  | enough due => exact due
  | grown due redistributed => exact redistributed.due?_eq_none hload due

namespace System

theorem Reachable.due?_eq_none {w : System A} (h : Reachable w) :
    ∀ C ∈ w.containers, ∀ hasher room later,
      C.2.table.makeRoom hasher w.heap = (.ok (), room, later) → room.due? = none := by
  rintro ⟨F, c⟩ hC hasher room later hr
  have htuned := (h.coherent _ hC).tuned
  have hload := (h.accepts _ hC).isPositive
  obtain ⟨Cs, heap, lost⟩ := w
  obtain ⟨pre, post, rfl⟩ := List.append_of_mem hC
  obtain ⟨rows, hs⟩ := h.sound.focus
  have hroom := htuned.room hs hasher
  rw [hr] at hroom
  exact hroom.due?_eq_none hload

theorem Reachable.insert_requested {w : System A} (h : Reachable w) :
    ∀ C ∈ w.containers, ∀ item : Item C.1,
      C.2.table.Requested w.heap (item.array? C.2) (Item.insert C.2 item w.heap).2.2 := by
  rintro ⟨F, c⟩ hC item
  have htuned := (h.coherent _ hC).tuned
  obtain ⟨Cs, heap, lost⟩ := w
  obtain ⟨pre, post, rfl⟩ := List.append_of_mem hC
  obtain ⟨rows, hs⟩ := h.sound.focus
  exact item.insert_requested hs htuned

/-- A plan with a finite and positive load factor asks for a larger prime and, once it has it, for
no more. From one demand to the next the bucket count ascends through the primes, of which there
are 255. In a reachable system an insertion requests one array at most, and a container that has
made room has none due. -/
theorem growth_settles :
    (∀ (g g' : Growth) (count elements additional grown : Nat), g.maxLoad.isPositive = true →
      g.advise count elements additional = (some grown, g') →
        g.Settles count (elements + additional) grown g') ∧
    (∀ (g : Growth) (count : Nat) (demands : List Growth.Demand),
      (count :: g.course count demands).IsChain (· < ·) ∧ g.course count demands ⊆ primes ∧
        (g.course count demands).length ≤ 255) ∧
    ∀ w : System A, Reachable w → ∀ C ∈ w.containers,
      (∀ item : Item C.1,
        C.2.table.Requested w.heap (item.array? C.2) (Item.insert C.2 item w.heap).2.2) ∧
      ∀ hasher room later,
        C.2.table.makeRoom hasher w.heap = (.ok (), room, later) → room.due? = none := by
  refine ⟨fun g g' count elements additional grown hload h => Growth.settles hload h,
    fun g count demands => ⟨g.isChain_course count demands, g.course_subset count demands, ?_⟩,
    fun w h C hC => ⟨h.insert_requested C hC, h.due?_eq_none C hC⟩⟩
  exact (g.length_course_le count demands).trans (by decide +kernel)

/-- With the least normal number for a load factor, two elements ask for the last prime at once.
Four keys for three buckets ask for seven. -/
theorem growth_settles_brimful :
    let tiny := Growth.new (.ofBits 0x00800000) 2
    tiny.maxLoad = .ofBits 0x00800000 ∧ (tiny.advise 2 1 1).1 = some largestPrime ∧
      tiny.Settles 2 2 largestPrime (tiny.advise 2 1 1).2 ∧
      ∀ C ∈ brimful.containers, C.2.table.due? = some 7 ∧
        (C.2.table.makeRoom (fun _ _ => 0) brimful.heap).2.1.bucketCount = 7 ∧
        (C.2.table.makeRoom (fun _ _ => 0) brimful.heap).2.1.due? = none := by
  have htiny : (Growth.new (.ofBits 0x00800000) 2).advise 2 1 1 =
      (some largestPrime, ((Growth.new (.ofBits 0x00800000) 2).advise 2 1 1).2) :=
    Prod.ext (by decide +kernel) rfl
  refine ⟨by decide +kernel, by decide +kernel,
    (growth_settles (A := Lender)).1 _ _ 2 1 1 _ (by decide +kernel) htiny, fun C hC => ?_⟩
  have hreachable := (steady_brimful C hC).reachable
  have hroom := ((growth_settles (A := Lender)).2.2 _ hreachable C hC).2 (fun _ _ => 0)
  obtain rfl := List.mem_singleton.mp hC
  exact ⟨by decide +kernel, by decide +kernel, hroom _ _ (Prod.ext (by rfl) rfl)⟩

end System

end ArenaHash
