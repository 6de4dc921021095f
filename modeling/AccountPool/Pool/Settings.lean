import AccountPool.Entity.Account
import AccountPool.Entity.Lease
import AccountPool.Table.Layout

/-!
# The tables of a pool

A pool is a table of accounts, a table of leases and the number of rows that scans fetch at a time.
Only the table names and that number can be chosen.
-/

namespace AccountPool

/-- The choices that make a pool. -/
structure PoolSettings where
  accountTable : String := "Accounts"
  leaseTable : String := "Leases"
  scanPageSize : Nat := 100
deriving DecidableEq, Repr

/-- A pool of accounts and their leases. -/
structure Pool where
  accounts : Table
  leases : Table
  scanPageSize : Nat
deriving DecidableEq, Repr

namespace Pool

/-- Accounts are filed by their identifier and can be looked up by status. -/
def accountTable (name : String) : Table :=
  { name, partition := Account.idName, indexes := [Account.statusName] }

/-- Leases are filed by account and principal and can be looked up by status and by principal. -/
def leaseTable (name : String) : Table :=
  { name, partition := Lease.accountIdName, sort := some Lease.principalIdName,
    indexes := [Lease.statusName, Lease.principalIdName] }

/-- The pool with the given settings; a page has at least one row. -/
def ofSettings (settings : PoolSettings) : Pool :=
  ⟨accountTable settings.accountTable, leaseTable settings.leaseTable, max settings.scanPageSize 1⟩

/-- A pool in words. -/
def description (pool : Pool) : String :=
  "Db \x7b account_table: " ++ Text.quoted pool.accounts.name ++ ", lease_table: " ++
    Text.quoted pool.leases.name ++ ", scan_page_size: " ++ toString pool.scanPageSize ++ ", .. \x7d"

end Pool

end AccountPool
