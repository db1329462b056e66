import BoardSchema.Proofs.Compilation
import BoardSchema.Proofs.Field.Builder
import BoardSchema.Proofs.Layout.Names
/-!
The padding of a configuration has names of its own. The names of all declared fields are reserved
before the first gap is filled, so it does not matter whether a field is declared before or behind a
gap.
-/
namespace BoardSchema.Compilation
open Layout

variable {rules : Rules}

theorem taken_reserve (fields : List Field) (pool : NamePool) :
    (fields.foldl (fun pool field => pool.reserve field.name) pool).taken =
      (fields.map Field.name).reverse ++ pool.taken := by
  induction fields generalizing pool with
  | nil => rfl
  | cons field rest ih =>
    rw [List.foldl_cons, ih, List.map_cons, List.reverse_cons, List.append_assoc]
    rfl

theorem stem_paddingNames (rules : Rules) (entries : List Entry) :
    (paddingNames rules entries).stem = rules.paddingPrefix := by
  have kept (fields : List Field) (pool : NamePool) :
      (fields.foldl (fun pool field => pool.reserve field.name) pool).stem = pool.stem := by
    induction fields generalizing pool with
    | nil => rfl
    | cons field rest ih => exact ih _
  exact kept _ _

theorem mem_taken_paddingNames {entries : List Entry} {field : Field}
    (declared : .field field ∈ entries) : field.name ∈ (paddingNames rules entries).taken := by
  rw [paddingNames, taken_reserve, List.append_nil, List.mem_reverse]
  exact List.mem_map_of_mem (List.mem_filterMap.2 ⟨.field field, declared, rfl⟩)

/-- Whatever a pool was asked for, the next name that it hands out has the least number behind all
that were tried whose name is free. So the padding of a configuration has names that differ from
each other and from those of all fields that its lines declare. -/
theorem ofText_paddingNames :
    (∀ stem requests, ∃ number,
      (NamePool.Ledger.serveAll stem requests).HandsOut stem number) ∧
    ∀ {rules : Rules} {name text : String} {compilation : Compilation},
      (ofText rules name text).outcome = .ok compilation → ∃ document built,
        Document.ofText name text = .ok document ∧
        (Built.ofLines rules (document.region .config)).outcome = .ok built ∧
        (namesOfPadding compilation.schema.configs).Nodup ∧
        ∀ padding ∈ namesOfPadding compilation.schema.configs,
          ∀ declared, .field declared ∈ built.entries → padding ≠ declared.name := by
  refine ⟨fun stem requests => ⟨_, (NamePool.Ledger.agrees_serveAll stem requests).handsOut⟩, ?_⟩
  intro rules name text compilation h
  obtain ⟨document, table, built, bodies, layout, comes⟩ := exists_comes h
  obtain ⟨pool, laid⟩ := comes.laid
  obtain ⟨distinct, unknown⟩ := ofEntries_namesOfPadding (Built.unpadded_ofLines comes.builds) laid
  rw [comes.schema_eq]
  refine ⟨document, built, comes.read, comes.builds, distinct, ?_⟩
  rintro padding hpadding declared hdeclared rfl
  exact unknown _ hpadding (mem_taken_paddingNames hdeclared)

/-- Two gaps, and a field behind them that has the name which the first one would have. -/
def fieldBehindGaps : String := "\n".intercalate
  ["[PcdsDynamicVpd.Upd]", "A|0x0|4|0", "B|0x8|4|0", "C|0x10|4|0", "UnusedUpdSpace0|*|4|0"]

theorem fieldBehindGaps_paddingNames : ∃ compilation document built,
    (ofText {} "board.dsc" fieldBehindGaps).outcome = .ok compilation ∧
    Document.ofText "board.dsc" fieldBehindGaps = .ok document ∧
    (Built.ofLines {} (document.region .config)).outcome = .ok built ∧
    namesOfPadding compilation.schema.configs = ["UnusedUpdSpace1", "UnusedUpdSpace2"] ∧
    ∀ padding ∈ namesOfPadding compilation.schema.configs,
      ∀ declared, .field declared ∈ built.entries → padding ≠ declared.name := by
  have compiled : (ofText {} "board.dsc" fieldBehindGaps).outcome.toOption.map (fun compilation =>
      namesOfPadding compilation.schema.configs) = some ["UnusedUpdSpace1", "UnusedUpdSpace2"] := by
    decide +kernel
  obtain ⟨compilation, hcompilation, names⟩ := exists_eq_ok compiled
  obtain ⟨document, built, hdocument, hbuilt, -, fresh⟩ := ofText_paddingNames.2 hcompilation
  exact ⟨compilation, document, built, hcompilation, hdocument, hbuilt, names, fresh⟩

end BoardSchema.Compilation
