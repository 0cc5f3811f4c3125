import KeyedQuery.Main
import KeyedQuery.Proofs.Read.Answer
import KeyedQuery.Proofs.Store.Put
import KeyedQuery.Proofs.Store.Drain
import KeyedQuery.Proofs.Coercion
import KeyedQuery.Proofs.Sorting.Records
import KeyedQuery.Proofs.Query.Count
import KeyedQuery.Proofs.Read.Returned
import KeyedQuery.Proofs.Read.PrimaryKey
import KeyedQuery.Proofs.Dataset
import KeyedQuery.Proofs.Expression.Parsing
import KeyedQuery.Proofs.Plan.Partition
import KeyedQuery.Proofs.Plan.Placeholders
import KeyedQuery.Proofs.Store.History
import KeyedQuery.Proofs.Read.Derived
import KeyedQuery.Proofs.Read.Malformed
import KeyedQuery.Proofs.Reload
import KeyedQuery.Proofs.Coercion.Text
import KeyedQuery.Proofs.Coercion.Normal
import KeyedQuery.Proofs.Store.KeyCondition
import KeyedQuery.Proofs.Plan.SortMatch
import KeyedQuery.Proofs.Json.Alike
import KeyedQuery.Proofs.Order
import KeyedQuery.Proofs.Plan.ShownNames
import KeyedQuery.Proofs.Where.Entries
import KeyedQuery.Proofs.Plan.Conjuncts
import KeyedQuery.Proofs.Store.AnyCursor
