import StagedTable.Server.Commit
import StagedTable.Sql.Literal

/-!
# The catalog

The query that asks a server for the columns of a table, and the columns that its rows describe.
-/

namespace StagedTable

/-- A foreign key as the catalog describes it. -/
structure ForeignKey where
  constraintName : Value
  schema : Value
  table : Value
  column : Value

/-- A column as the catalog describes it. -/
structure CatalogColumn where
  name : Value
  dataType : Value
  nullable : Bool
  primaryKey : Bool
  unique : Bool
  foreignKey : Option ForeignKey
  enumValues : Option (List String)
  defaultText : Value

/-- Why the columns of a table cannot be had. -/
inductive CatalogError
  | missing (key : String)
  | enumValues (e : RenderError)
  | server (e : ServerError)

/-- The wording of an error, if it has one of its own. -/
def CatalogError.message? : CatalogError → Option String
  | .missing key => some key
  | .enumValues e => e.message?
  | .server e => some e.message

namespace Catalog

/-- The catalog query for the columns of a table, in table order. -/
def query (table : Sql.TableName) : String :=
  "
        SELECT
            a.attname AS name,
            format_type(a.atttypid, a.atttypmod) AS data_type,
            NOT a.attnotnull AS nullable,
            COALESCE(ix.is_primary_key, false) AS is_primary_key,
            COALESCE(ix.is_unique, false) AS is_unique,
            pg_get_expr(d.adbin, d.adrelid) AS default_value,
            fk.constraint_name,
            fk.referenced_schema,
            fk.referenced_table,
            fk.referenced_column,
            (
                SELECT array_agg(e.enumlabel::text ORDER BY e.enumsortorder)
                FROM pg_enum e
                WHERE e.enumtypid = a.atttypid
            ) AS enum_values
        FROM pg_attribute a
        JOIN pg_class c ON c.oid = a.attrelid
        JOIN pg_namespace n ON n.oid = c.relnamespace
        LEFT JOIN pg_attrdef d ON d.adrelid = a.attrelid AND d.adnum = a.attnum
        LEFT JOIN LATERAL (
            SELECT
                bool_or(i.indisprimary) AS is_primary_key,
                bool_or(i.indisunique AND NOT i.indisprimary) AS is_unique
            FROM pg_index i
            WHERE i.indrelid = a.attrelid AND a.attnum = ANY(i.indkey)
        ) ix ON true
        LEFT JOIN LATERAL (
            SELECT
                con.conname::text AS constraint_name,
                rn.nspname::text AS referenced_schema,
                rc.relname::text AS referenced_table,
                ra.attname::text AS referenced_column
            FROM pg_constraint con
            JOIN pg_class rc ON rc.oid = con.confrelid
            JOIN pg_namespace rn ON rn.oid = rc.relnamespace
            JOIN pg_attribute ra
                ON ra.attrelid = con.confrelid
                AND ra.attnum = con.confkey[array_position(con.conkey, a.attnum)]
            WHERE con.conrelid = a.attrelid
              AND con.contype = 'f'
              AND a.attnum = ANY(con.conkey)
            ORDER BY con.conname
            LIMIT 1
        ) fk ON true
        WHERE n.nspname = " ++ String.ofList (Sql.string table.schema.toList) ++ "
          AND c.relname = " ++ String.ofList (Sql.string table.name.toList) ++ "
          AND a.attnum > 0
          AND NOT a.attisdropped
        ORDER BY a.attnum
    "

/-- The value that a row must have under a key. -/
def required (r : Row) (key : String) : Except CatalogError Value :=
  match r.get? key with
  | some v => .ok v
  | none => .error (.missing key)

/-- Whether the value under a key counts as true; there may be none. -/
def flag (r : Row) (key : String) : Bool := !((r.get? key).getD .null).isFalsy

/-- The foreign key that a row describes, if it names a constraint. -/
def foreignKey? (r : Row) : Except CatalogError (Option ForeignKey) :=
  if flag r "constraint_name" then do
    return some ⟨← required r "constraint_name", ← required r "referenced_schema",
      ← required r "referenced_table", ← required r "referenced_column"⟩
  else .ok none

/-- The values of an enumerated type, if there are any; some drivers return them as text. -/
def enumValues? (r : Row) : Except CatalogError (Option (List String)) :=
  match r.get? "enum_values" with
  | none | some .null => .ok none
  | some v =>
    match ArrayLiteral.decode v with
    | .ok texts => .ok (some (texts.map String.ofList))
    | .error e => .error (.enumValues e)

/-- The column that a row describes. -/
def column (r : Row) : Except CatalogError CatalogColumn := do
  let name ← required r "name"
  let dataType ← required r "data_type"
  let nullable ← required r "nullable"
  let primaryKey ← required r "is_primary_key"
  let foreignKey ← foreignKey? r
  let enumValues ← enumValues? r
  return ⟨name, dataType, !nullable.isFalsy, !primaryKey.isFalsy, flag r "is_unique", foreignKey,
    enumValues, (r.get? "default_value").getD .null⟩

/-- The columns that rows describe. -/
def columns (rows : List Row) : Except CatalogError (List CatalogColumn) := rows.mapM column

/-- Asks a server for the columns of a table. -/
def fetch (executor : Executor) (table : Sql.TableName) :
    Except CatalogError (List CatalogColumn) :=
  match executor [] (query table) with
  | .ok rows => columns rows
  | .error e => .error (.server e)

end Catalog

end StagedTable
